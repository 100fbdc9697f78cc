import SecureLayout.Collab.Document
import SecureLayout.Proofs.Entries
import SecureLayout.Proofs.Wire.ClockOrder

/-!
What merging leaves in a document: per field the latest write among those it held and those it was
given. Main statements: the order and the repetition of merged writes change nothing, and documents that
exchange all they have agree; whatever a document knows, holding it or a later write under its field, it goes on
knowing; counters that were counted up one at a time from a clock stay within one step of it.
-/

namespace SecureLayout.Collab

open Json (Value)
open Wire (Clock FieldUpdate)

/-- Writes that are told apart by their clocks: one field, one clock, one value. -/
def Agree (us : List FieldUpdate) : Prop :=
  ∀ u ∈ us, ∀ v ∈ us, u.field = v.field → u.clock = v.clock → u.value = v.value

/-- The latest of the writes to a field, or nothing if there is none. -/
def Latest (us : List FieldUpdate) (field : String) : Option FieldUpdate → Prop
  | none => ∀ u ∈ us, u.field ≠ field
  | some w => w ∈ us ∧ w.field = field ∧ ∀ u ∈ us, u.field = field → ¬ u.clock.Later w.clock

namespace Document

/-- Every document that local writes and merges make out of an empty one. -/
inductive Reachable : Document → Prop
  | new (replica : String) : Reachable { replica }
  | set {d d' : Document} {field : String} {value : Value} {u : FieldUpdate} :
      Reachable d → d.set field value = .ok (u, d') → Reachable d'
  | merge {d : Document} (u : FieldUpdate) : Reachable d → Reachable (d.merge u).2

/-- Entries stand in order, each under its own field and none later than the clock. -/
structure WellFormed (d : Document) : Prop where
  sorted : Entries.Sorted d.entries
  own : ∀ e ∈ d.entries, e.2.field = e.1
  bounded : ∀ e ∈ d.entries, e.2.clock.counter ≤ d.clock

theorem WellFormed.advance {d : Document} (h : d.WellFormed) {clock : Nat} (hle : d.clock ≤ clock) :
    WellFormed { d with clock } :=
  ⟨h.sorted, h.own, fun e he => le_trans (h.bounded e he) hle⟩

theorem WellFormed.put {d : Document} (h : d.WellFormed) {u : FieldUpdate}
    (hu : u.clock.counter ≤ d.clock) :
    WellFormed { d with entries := Entries.put u.field u d.entries } := by
  refine ⟨Entries.sorted_put h.sorted _ _, fun e he => ?_, fun e he => ?_⟩
  · rcases Entries.mem_put he with rfl | he
    · rfl
    · exact h.own e he
  · rcases Entries.mem_put he with rfl | he
    · exact hu
    · exact h.bounded e he

theorem WellFormed.set {d d' : Document} (h : d.WellFormed) {field : String} {value : Value}
    {u : FieldUpdate} (hs : d.set field value = .ok (u, d')) : d'.WellFormed := by
  obtain ⟨rfl, hc, he, -⟩ := set_eq_ok hs
  have hput := (h.advance (Nat.le_succ d.clock)).put (u := ⟨field, value, ⟨d.clock + 1, d.replica⟩⟩)
    (le_refl (d.clock + 1))
  exact ⟨he ▸ hput.sorted, he ▸ hput.own, hc ▸ he ▸ hput.bounded⟩

theorem WellFormed.merge {d : Document} (h : d.WellFormed) (u : FieldUpdate) :
    (d.merge u).2.WellFormed := by
  have hmax := h.advance (le_max_left d.clock u.clock.counter)
  unfold Document.merge
  dsimp only
  split
  · exact hmax.put (le_max_right _ _)
  · exact hmax

theorem WellFormed.mergeAll {d : Document} (h : d.WellFormed) (us : List FieldUpdate) :
    (d.mergeAll us).WellFormed := by
  induction us generalizing d with
  | nil => exact h
  | cons u us ih => exact ih (h.merge u)

theorem Reachable.wellFormed {d : Document} (h : d.Reachable) : d.WellFormed := by
  induction h with
  | new replica =>
    exact ⟨List.Pairwise.nil, fun e he => absurd he List.not_mem_nil,
      fun e he => absurd he List.not_mem_nil⟩
  | set _ hs ih => exact ih.set hs
  | merge u _ ih => exact ih.merge u

theorem Reachable.mergeAll {d : Document} (h : d.Reachable) (us : List FieldUpdate) :
    (d.mergeAll us).Reachable := by
  induction us generalizing d with
  | nil => exact h
  | cons u us ih => exact ih (h.merge u)

theorem winner?_eq_some_iff {d : Document} (h : d.WellFormed) (field : String) (u : FieldUpdate) :
    d.winner? field = some u ↔ u ∈ d.snapshot ∧ u.field = field := by
  rw [winner?, Entries.get?_eq_some_iff h.sorted]
  constructor
  · intro hm
    exact ⟨List.mem_map_of_mem hm, h.own _ hm⟩
  · rintro ⟨hm, rfl⟩
    obtain ⟨e, he, rfl⟩ := List.mem_map.1 hm
    exact (h.own e he).symm ▸ he

/-- Documents with the same winners have the same snapshot. -/
theorem snapshot_eq_of_winners {d e : Document} (hd : d.WellFormed) (he : e.WellFormed)
    (h : ∀ field, d.winner? field = e.winner? field) : d.snapshot = e.snapshot := by
  unfold snapshot
  rw [Entries.ext_get? hd.sorted he.sorted h]

/-! ### One merge, and any number of them -/

theorem isNews_iff (d : Document) (u : FieldUpdate) :
    d.isNews u = true ↔ ∀ w, d.winner? u.field = some w → w.clock < u.clock := by
  unfold isNews
  split
  · next w hw => simp [hw, Clock.before_iff_lt]
  · next hw => simp [hw]

theorem latest_winner? {d : Document} (h : d.WellFormed) (field : String) :
    Latest d.snapshot field (d.winner? field) := by
  cases hw : d.winner? field with
  | none =>
    intro u hu hf
    rw [(winner?_eq_some_iff h field u).2 ⟨hu, hf⟩] at hw
    cases hw
  | some w =>
    obtain ⟨hm, hf⟩ := (winner?_eq_some_iff h field w).1 hw
    refine ⟨hm, hf, fun u hu huf => ?_⟩
    have := (winner?_eq_some_iff h field u).2 ⟨hu, huf⟩
    rw [hw] at this
    cases this
    rw [Clock.later_iff_lt]
    exact lt_irrefl _

/-- A merge leaves the latest write if it found the latest one. -/
theorem latest_merge {d : Document} {us : List FieldUpdate} {field : String}
    (h : Latest us field (d.winner? field)) (u : FieldUpdate) :
    Latest (us ++ [u]) field ((d.merge u).2.winner? field) := by
  rw [winner?_merge]
  split
  · next hu =>
    obtain ⟨rfl, hn⟩ := hu
    refine ⟨by simp, rfl, fun v hv hvf => ?_⟩
    rw [Clock.later_iff_lt, not_lt]
    rcases List.mem_append.1 hv with hv | hv
    · cases hw : d.winner? u.field with
      | none => exact absurd hvf ((hw ▸ h : Latest us u.field none) v hv)
      | some w =>
        have hl := (hw ▸ h : Latest us u.field (some w)).2.2 v hv hvf
        rw [Clock.later_iff_lt, not_lt] at hl
        exact le_of_lt (lt_of_le_of_lt hl ((isNews_iff d u).1 hn w hw))
    · rw [List.mem_singleton.1 hv]
  · next hu =>
    cases hw : d.winner? field with
    | none =>
      intro v hv hvf
      rcases List.mem_append.1 hv with hv | hv
      · exact (hw ▸ h : Latest us field none) v hv hvf
      · rw [List.mem_singleton.1 hv] at hvf
        subst hvf
        exact hu ⟨rfl, (isNews_iff d u).2 fun w h' => by rw [hw] at h'; cases h'⟩
    | some w =>
      obtain ⟨hm, hf, hl⟩ := (hw ▸ h : Latest us field (some w))
      refine ⟨List.mem_append_left _ hm, hf, fun v hv hvf => ?_⟩
      rcases List.mem_append.1 hv with hv | hv
      · exact hl v hv hvf
      · rw [List.mem_singleton.1 hv] at hvf ⊢
        subst hvf
        rw [Clock.later_iff_lt]
        intro hlt
        refine hu ⟨rfl, (isNews_iff d u).2 fun w' h' => ?_⟩
        rw [hw] at h'
        cases h'
        exact hlt

theorem latest_mergeAll {d : Document} {vs : List FieldUpdate} {field : String}
    (h : Latest vs field (d.winner? field)) (us : List FieldUpdate) :
    Latest (vs ++ us) field ((d.mergeAll us).winner? field) := by
  induction us generalizing d vs with
  | nil => simpa [mergeAll] using h
  | cons u us ih =>
    have hu := ih (latest_merge h u)
    rwa [List.append_assoc] at hu

theorem clock_mergeAll_le_iff (d : Document) (us : List FieldUpdate) (n : Nat) :
    (d.mergeAll us).clock ≤ n ↔ d.clock ≤ n ∧ ∀ u ∈ us, u.clock.counter ≤ n := by
  induction us generalizing d with
  | nil => simp [mergeAll]
  | cons u us ih =>
    have hu := ih (d.merge u).2
    rw [clock_merge, max_le_iff] at hu
    simp only [List.mem_cons, forall_eq_or_imp, ← and_assoc]
    exact hu

theorem replica_merge (d : Document) (u : FieldUpdate) : (d.merge u).2.replica = d.replica := by
  unfold merge
  dsimp only
  split <;> rfl

theorem replica_mergeAll (d : Document) (us : List FieldUpdate) :
    (d.mergeAll us).replica = d.replica := by
  induction us generalizing d with
  | nil => rfl
  | cons u us ih => exact (ih _).trans (replica_merge d u)

end Document

/-! ### The latest write is one write -/

theorem Latest.congr {us vs : List FieldUpdate} (h : ∀ u, u ∈ vs ↔ u ∈ us) {field : String}
    {r : Option FieldUpdate} (hr : Latest us field r) : Latest vs field r := by
  cases r with
  | none => exact fun u hu => hr u ((h u).1 hu)
  | some w => exact ⟨(h w).2 hr.1, hr.2.1, fun u hu => hr.2.2 u ((h u).1 hu)⟩

theorem Latest.unique {us : List FieldUpdate} (ha : Agree us) {field : String}
    {r s : Option FieldUpdate} (hr : Latest us field r) (hs : Latest us field s) : r = s := by
  cases r with
  | none =>
    cases s with
    | none => rfl
    | some w => exact absurd hs.2.1 (hr w hs.1)
  | some v =>
    cases s with
    | none => exact absurd hr.2.1 (hs v hr.1)
    | some w =>
      obtain ⟨hv, hvf, hvl⟩ := hr
      obtain ⟨hw, hwf, hwl⟩ := hs
      have hvw := hwl v hv hvf
      have hwv := hvl w hw hwf
      rw [Clock.later_iff_lt, not_lt] at hvw hwv
      have hc : v.clock = w.clock := le_antisymm hvw hwv
      have hf : v.field = w.field := hvf.trans hwf.symm
      have hx := ha v hv w hw hf hc
      cases v
      cases w
      cases hc
      cases hf
      cases hx
      rfl

/-- Writes that stand for all of `us` have the same latest ones. -/
theorem Latest.of_dominating {us vs : List FieldUpdate} (hsub : ∀ v ∈ vs, v ∈ us)
    (hdom : ∀ u ∈ us, ∃ v ∈ vs, v.field = u.field ∧ ¬ u.clock.Later v.clock) {field : String}
    {r : Option FieldUpdate} (hr : Latest vs field r) : Latest us field r := by
  cases r with
  | none =>
    intro u hu hf
    obtain ⟨v, hv, hvf, -⟩ := hdom u hu
    exact hr v hv (hvf.trans hf)
  | some w =>
    refine ⟨hsub w hr.1, hr.2.1, fun u hu hf => ?_⟩
    obtain ⟨v, hv, hvf, hl⟩ := hdom u hu
    have hw := hr.2.2 v hv (hvf.trans hf)
    rw [Clock.later_iff_lt, not_lt] at hl hw ⊢
    exact le_trans hl hw

theorem Latest.exists_dominating {us : List FieldUpdate} {u : FieldUpdate} (hu : u ∈ us)
    {r : Option FieldUpdate} (hr : Latest us u.field r) :
    ∃ w, r = some w ∧ w.field = u.field ∧ ¬ u.clock.Later w.clock := by
  cases r with
  | none => exact absurd rfl (hr u hu)
  | some w => exact ⟨w, rfl, hr.2.1, hr.2.2 u hu rfl⟩

theorem Agree.symm {us vs : List FieldUpdate} (h : Agree (us ++ vs)) : Agree (vs ++ us) := by
  intro u hu v hv
  exact h u (by rw [List.mem_append] at hu ⊢; exact hu.symm)
    v (by rw [List.mem_append] at hv ⊢; exact hv.symm)

/-! ### Exchanging all there is -/

namespace Document

theorem latest_mergeAll_snapshot {d : Document} (hd : d.WellFormed) (us : List FieldUpdate)
    (field : String) : Latest (d.snapshot ++ us) field ((d.mergeAll us).winner? field) :=
  latest_mergeAll (latest_winner? hd field) us

/-- What was merged before adds nothing. -/
theorem mergeAll_eq_of_members {d e : Document} (hd : d.WellFormed) (he : e.WellFormed)
    {us vs : List FieldUpdate} (ha : Agree (d.snapshot ++ us))
    (h : ∀ u, u ∈ e.snapshot ++ vs ↔ u ∈ d.snapshot ++ us) :
    (e.mergeAll vs).snapshot = (d.mergeAll us).snapshot := by
  refine snapshot_eq_of_winners (he.mergeAll vs) (hd.mergeAll us) fun field => ?_
  exact ((latest_mergeAll_snapshot he vs field).congr fun u => (h u).symm).unique ha
    (latest_mergeAll_snapshot hd us field)

theorem clock_mergeAll_congr (d : Document) {us vs : List FieldUpdate}
    (h : ∀ u, u ∈ vs ↔ u ∈ us) : (d.mergeAll vs).clock = (d.mergeAll us).clock := by
  refine eq_of_forall_ge_iff fun n => ?_
  simp only [clock_mergeAll_le_iff, h]

/-- A document that took writes in keeps what it has when it takes them in again. -/
theorem mergeAll_mergeAll {d : Document} (hd : d.WellFormed) {us : List FieldUpdate}
    (ha : Agree (d.snapshot ++ us)) : (d.mergeAll us).mergeAll us = d.mergeAll us := by
  have htwice : (d.mergeAll us).mergeAll us = d.mergeAll (us ++ us) := by
    simp only [mergeAll, List.foldl_append]
  have hsame : ∀ u, u ∈ us ++ us ↔ u ∈ us := by simp
  have hclock := clock_mergeAll_congr d hsame
  have hentries : (d.mergeAll (us ++ us)).entries = (d.mergeAll us).entries := by
    refine Entries.ext_get? (hd.mergeAll _).sorted (hd.mergeAll _).sorted fun field => ?_
    refine ((latest_mergeAll_snapshot hd (us ++ us) field).congr fun u => ?_).unique ha
      (latest_mergeAll_snapshot hd us field)
    simp
  have hreplica : (d.mergeAll (us ++ us)).replica = (d.mergeAll us).replica := by
    rw [replica_mergeAll, replica_mergeAll]
  rw [htwice]
  cases hl : d.mergeAll (us ++ us)
  cases hr : d.mergeAll us
  simp_all

/-- A document that takes in what another one made of both ends where that one did. -/
theorem mergeAll_merged {d e : Document} (hd : d.WellFormed) (he : e.WellFormed)
    (ha : Agree (d.snapshot ++ e.snapshot)) :
    (e.mergeAll (d.mergeAll e.snapshot).snapshot).snapshot = (d.mergeAll e.snapshot).snapshot := by
  have hde := hd.mergeAll e.snapshot
  refine snapshot_eq_of_winners (he.mergeAll _) hde fun field => ?_
  have hmem : ∀ v ∈ (d.mergeAll e.snapshot).snapshot, v ∈ d.snapshot ++ e.snapshot := by
    intro v hv
    have hw := (winner?_eq_some_iff hde v.field v).2 ⟨hv, rfl⟩
    exact (hw ▸ latest_mergeAll_snapshot hd e.snapshot v.field :
      Latest _ v.field (some v)).1
  have hdom : ∀ u ∈ d.snapshot ++ e.snapshot,
      ∃ v ∈ e.snapshot ++ (d.mergeAll e.snapshot).snapshot,
        v.field = u.field ∧ ¬ u.clock.Later v.clock := by
    intro u hu
    obtain ⟨w, hw, hwf, hl⟩ :=
      Latest.exists_dominating hu (latest_mergeAll_snapshot hd e.snapshot u.field)
    exact ⟨w, List.mem_append_right _ ((winner?_eq_some_iff hde _ w).1 hw).1, hwf, hl⟩
  refine Latest.unique ha (Latest.of_dominating (fun v hv => ?_) hdom
    (latest_mergeAll_snapshot he _ field)) (latest_mergeAll_snapshot hd e.snapshot field)
  rcases List.mem_append.1 hv with hv | hv
  · exact List.mem_append_right _ hv
  · exact hmem v hv

/-- Merging is a matter of what is merged: each field ends with its latest write, neither order nor
repetition count, and two documents that exchange what they have, in whichever order, agree. -/
theorem merged_determines_document {d : Document} (hd : d.Reachable) (us : List FieldUpdate)
    (ha : Agree (d.snapshot ++ us)) :
    (∀ field, Latest (d.snapshot ++ us) field ((d.mergeAll us).winner? field)) ∧
    (∀ vs : List FieldUpdate, (∀ u, u ∈ vs ↔ u ∈ us) →
      (d.mergeAll vs).snapshot = (d.mergeAll us).snapshot ∧
        (d.mergeAll vs).clock = (d.mergeAll us).clock) ∧
    (d.mergeAll us).mergeAll us = d.mergeAll us ∧
    (∀ e : Document, e.Reachable → Agree (d.snapshot ++ e.snapshot) →
      (d.mergeAll e.snapshot).snapshot = (e.mergeAll d.snapshot).snapshot ∧
      (e.mergeAll (d.mergeAll e.snapshot).snapshot).snapshot = (d.mergeAll e.snapshot).snapshot ∧
      (d.mergeAll (e.mergeAll d.snapshot).snapshot).snapshot = (e.mergeAll d.snapshot).snapshot) := by
  have hwd := hd.wellFormed
  refine ⟨latest_mergeAll_snapshot hwd us, fun vs hvs => ⟨?_, clock_mergeAll_congr d hvs⟩,
    mergeAll_mergeAll hwd ha, fun e he hae => ?_⟩
  · exact mergeAll_eq_of_members hwd hwd ha fun u => by simp only [List.mem_append, hvs]
  · have hwe := he.wellFormed
    refine ⟨(mergeAll_eq_of_members hwd hwe hae fun u => ?_).symm, mergeAll_merged hwd hwe hae,
      mergeAll_merged hwe hwd (Agree.symm hae)⟩
    simp only [List.mem_append]
    exact or_comm

/-- Two concurrent writes and a later one reach a replica that wrote the field itself. -/
theorem merged_determines_document_concurrent :
    let d : Document := ⟨"b", [("f", ⟨"f", .bool true, ⟨1, "b"⟩⟩)], 1⟩
    let us : List FieldUpdate :=
      [⟨"f", .bool false, ⟨2, "a"⟩⟩, ⟨"f", .null, ⟨2, "c"⟩⟩, ⟨"g", .null, ⟨1, "b"⟩⟩]
    d.Reachable ∧ Agree (d.snapshot ++ us) ∧
      (d.mergeAll us.reverse).snapshot = (d.mergeAll us).snapshot := by
  intro d us
  have hd : d.Reachable := .set (.new "b") rfl
  have ha : Agree (d.snapshot ++ us) := by
    intro u hu v hv hf hc
    simp only [snapshot, d, us, List.map_cons, List.map_nil, List.cons_append, List.nil_append,
      List.mem_cons, List.not_mem_nil, or_false] at hu hv
    rcases hu with rfl | rfl | rfl | rfl <;> rcases hv with rfl | rfl | rfl | rfl <;>
      first
        | rfl
        | (exfalso; revert hf hc; decide)
  exact ⟨hd, ha, ((merged_determines_document hd us ha).2.1 us.reverse fun u => List.mem_reverse).1⟩

/-! ### What a document knows -/

/-- The document holds the write or a later one. -/
def Covers (d : Document) (u : FieldUpdate) : Prop :=
  ∃ w, d.winner? u.field = some w ∧ u.clock ≤ w.clock

/-- The write reached the document: it is covered and counted. -/
def Took (d : Document) (u : FieldUpdate) : Prop :=
  d.Covers u ∧ u.clock.counter ≤ d.clock

theorem Covers.of_entry {d : Document} (h : d.WellFormed) {u : FieldUpdate} (hu : u ∈ d.snapshot) :
    d.Covers u :=
  ⟨u, (winner?_eq_some_iff h u.field u).2 ⟨hu, rfl⟩, le_refl _⟩

theorem Covers.of_le {d : Document} {u v : FieldUpdate} (h : d.Covers v) (hf : v.field = u.field)
    (hc : u.clock ≤ v.clock) : d.Covers u := by
  obtain ⟨w, hw, hl⟩ := h
  exact ⟨w, hf ▸ hw, le_trans hc hl⟩

theorem Covers.merge {d : Document} {u : FieldUpdate} (h : d.Covers u) (v : FieldUpdate) :
    (d.merge v).2.Covers u := by
  obtain ⟨w, hw, hc⟩ := h
  unfold Covers
  rw [winner?_merge]
  split
  · next hv =>
    refine ⟨v, rfl, le_trans hc (le_of_lt ((isNews_iff d v).1 hv.2 w ?_))⟩
    exact hv.1 ▸ hw
  · exact ⟨w, hw, hc⟩

theorem covers_merge_self (d : Document) (u : FieldUpdate) : (d.merge u).2.Covers u := by
  unfold Covers
  rw [winner?_merge]
  split
  · exact ⟨u, rfl, le_refl _⟩
  · next hn =>
    have hold : ¬ d.isNews u = true := fun h => hn ⟨rfl, h⟩
    rw [isNews_iff] at hold
    push Not at hold
    obtain ⟨w, hw, hl⟩ := hold
    exact ⟨w, hw, hl⟩

theorem Covers.mergeAll {d : Document} {u : FieldUpdate} (h : d.Covers u) (us : List FieldUpdate) :
    (d.mergeAll us).Covers u := by
  induction us generalizing d with
  | nil => exact h
  | cons v us ih => exact ih (h.merge v)

theorem clock_le_mergeAll (d : Document) (us : List FieldUpdate) : d.clock ≤ (d.mergeAll us).clock :=
  ((clock_mergeAll_le_iff d us _).1 (le_refl _)).1

theorem Took.mergeAll {d : Document} {u : FieldUpdate} (h : d.Took u) (us : List FieldUpdate) :
    (d.mergeAll us).Took u :=
  ⟨h.1.mergeAll us, le_trans h.2 (clock_le_mergeAll d us)⟩

theorem took_mergeAll {d : Document} {u : FieldUpdate} {us : List FieldUpdate} (hu : u ∈ us) :
    (d.mergeAll us).Took u := by
  refine ⟨?_, ((clock_mergeAll_le_iff d us _).1 (le_refl _)).2 u hu⟩
  induction us generalizing d with
  | nil => cases hu
  | cons v us ih =>
    rcases List.mem_cons.1 hu with rfl | hu
    · exact (covers_merge_self d u).mergeAll us
    · exact ih hu

/-- A local write hides nothing that is later. -/
theorem Covers.set {d d' : Document} (h : d.WellFormed) {field : String} {value : Value}
    {u v : FieldUpdate} (hs : d.set field value = .ok (u, d')) (hv : d.Covers v) : d'.Covers v := by
  obtain ⟨rfl, hc, he, -⟩ := set_eq_ok hs
  obtain ⟨w, hw, hl⟩ := hv
  unfold Covers winner?
  rw [he, Entries.get?_put]
  split
  · refine ⟨_, rfl, le_trans hl (le_of_lt ((Clock.lt_iff _ _).2 (.inl ?_)))⟩
    exact Nat.lt_succ_of_le (h.bounded _ (Entries.mem_of_get? hw))
  · exact ⟨w, hw, hl⟩

theorem covers_set {d d' : Document} {field : String} {value : Value} {u : FieldUpdate}
    (hs : d.set field value = .ok (u, d')) : d'.Covers u := by
  obtain ⟨rfl, -, he, -⟩ := set_eq_ok hs
  refine ⟨⟨field, value, ⟨d.clock + 1, d.replica⟩⟩, ?_, le_refl _⟩
  rw [winner?, he, Entries.get?_put, if_pos rfl]

/-! ### Entries and where they come from -/

theorem mem_snapshot_merge {d : Document} (h : d.WellFormed) {u e : FieldUpdate}
    (he : e ∈ (d.merge u).2.snapshot) : e ∈ d.snapshot ∨ e = u ∧ d.isNews u = true := by
  have hw := (winner?_eq_some_iff (h.merge u) e.field e).2 ⟨he, rfl⟩
  rw [winner?_merge] at hw
  split at hw
  · next hu =>
    cases hw
    exact .inr ⟨rfl, hu.2⟩
  · exact .inl ((winner?_eq_some_iff h e.field e).1 hw).1

theorem mem_snapshot_mergeAll {d : Document} (h : d.WellFormed) {us : List FieldUpdate}
    {e : FieldUpdate} (he : e ∈ (d.mergeAll us).snapshot) : e ∈ d.snapshot ∨ e ∈ us := by
  induction us generalizing d with
  | nil => exact .inl he
  | cons u us ih =>
    rcases ih (h.merge u) he with he | he
    · rcases mem_snapshot_merge h he with he | ⟨rfl, -⟩
      · exact .inl he
      · exact .inr (List.mem_cons_self ..)
    · exact .inr (List.mem_cons_of_mem _ he)

theorem mem_snapshot_set {d d' : Document} (h : d.WellFormed) {field : String} {value : Value}
    {u e : FieldUpdate} (hs : d.set field value = .ok (u, d')) (he : e ∈ d'.snapshot) :
    e ∈ d.snapshot ∨ e = u := by
  have hw := (winner?_eq_some_iff (h.set hs) e.field e).2 ⟨he, rfl⟩
  obtain ⟨rfl, -, hentries, -⟩ := set_eq_ok hs
  rw [winner?, hentries, Entries.get?_put] at hw
  split at hw
  · cases hw
    exact .inr rfl
  · exact .inl ((winner?_eq_some_iff h e.field e).1 hw).1

/-- Documents that cover each other's entries have the same snapshot, if clocks tell their writes apart. -/
theorem snapshot_eq_of_covers {d e : Document} (hd : d.WellFormed) (he : e.WellFormed)
    (hu : ∀ u ∈ d.snapshot, ∀ v ∈ e.snapshot, u.clock = v.clock → u = v)
    (hde : ∀ u ∈ d.snapshot, e.Covers u) (hed : ∀ v ∈ e.snapshot, d.Covers v) :
    d.snapshot = e.snapshot := by
  refine snapshot_eq_of_winners hd he fun field => ?_
  cases hw : d.winner? field with
  | none =>
    cases hv : e.winner? field with
    | none => rfl
    | some v =>
      obtain ⟨hvm, rfl⟩ := (winner?_eq_some_iff he field v).1 hv
      obtain ⟨w, hdw, -⟩ := hed v hvm
      rw [hw] at hdw
      cases hdw
  | some u =>
    obtain ⟨hum, rfl⟩ := (winner?_eq_some_iff hd field u).1 hw
    obtain ⟨v, hv, huv⟩ := hde u hum
    obtain ⟨hvm, hvf⟩ := (winner?_eq_some_iff he u.field v).1 hv
    obtain ⟨w, hdw, hvw⟩ := hed v hvm
    rw [hvf, hw] at hdw
    cases hdw
    rw [hv, hu u hum v hvm (le_antisymm huv hvw)]

end Document

/-! ### Counters in a row -/

/-- The greatest of a clock and counters. -/
def topCounter (clock : Nat) (counters : List Nat) : Nat :=
  counters.foldl max clock

/-- Each counter is at most one more than the clock and those before it. -/
def InStep : Nat → List Nat → Prop
  | _, [] => True
  | clock, c :: cs => c ≤ clock + 1 ∧ InStep (max clock c) cs

theorem topCounter_le_iff (clock : Nat) (cs : List Nat) (n : Nat) :
    topCounter clock cs ≤ n ↔ clock ≤ n ∧ ∀ c ∈ cs, c ≤ n := by
  induction cs generalizing clock with
  | nil => simp [topCounter]
  | cons c cs ih =>
    have h := ih (max clock c)
    rw [max_le_iff] at h
    simp only [List.mem_cons, forall_eq_or_imp, ← and_assoc]
    exact h

theorem le_topCounter (clock : Nat) (cs : List Nat) : clock ≤ topCounter clock cs :=
  ((topCounter_le_iff clock cs _).1 (le_refl _)).1

theorem le_topCounter_of_mem {clock c : Nat} {cs : List Nat} (h : c ∈ cs) : c ≤ topCounter clock cs :=
  ((topCounter_le_iff clock cs _).1 (le_refl _)).2 c h

theorem InStep.mono {a b : Nat} {cs : List Nat} (h : InStep a cs) (hab : a ≤ b) : InStep b cs := by
  induction cs generalizing a b with
  | nil => trivial
  | cons c cs ih => exact ⟨by have := h.1; omega, ih h.2 (by omega)⟩

theorem InStep.concat {a c : Nat} {cs : List Nat} (h : InStep a cs) (hc : c ≤ topCounter a cs + 1) :
    InStep a (cs ++ [c]) := by
  induction cs generalizing a with
  | nil => exact ⟨hc, trivial⟩
  | cons b cs ih => exact ⟨h.1, ih h.2 hc⟩

/-- Counters that the clock has reached may be left out. -/
theorem InStep.filter {α : Type} {a : Nat} {xs : List α} {f : α → Nat} (p : α → Bool)
    (h : InStep a (xs.map f)) (hp : ∀ x ∈ xs, p x = false → f x ≤ a) :
    InStep a ((xs.filter p).map f) := by
  induction xs generalizing a with
  | nil => trivial
  | cons x xs ih =>
    have hxs : ∀ y ∈ xs, p y = false → f y ≤ max a (f x) := fun y hy hpy =>
      le_trans (hp y (List.mem_cons_of_mem _ hy) hpy) (le_max_left _ _)
    cases hx : p x with
    | true =>
      rw [List.filter_cons_of_pos hx]
      exact ⟨h.1, ih h.2 hxs⟩
    | false =>
      rw [List.filter_cons_of_neg (by simp [hx])]
      have hmax : max a (f x) = a := max_eq_left (hp x (List.mem_cons_self ..) hx)
      have hr := ih h.2 hxs
      rwa [hmax] at hr

end SecureLayout.Collab
