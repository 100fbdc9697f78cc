import Mathlib.Data.List.Perm.Basic
import SecureLayout.Proofs.Json.Records

/-!
Names in a record. Main statements: a strict record was read from an object with just its names, each once but
for a field that may be absent, and a record that is not strict is read alike with and without other names.
-/

namespace SecureLayout.Json

variable {α β γ : Type} {h : Header} {a : Slot α} {b : Slot β} {c : Slot γ} {ms : List (String × Raw)}
  {o : Option α} {u : Option β} {v : Option γ}

/-! ### Names of a record -/

/-- Names in the order of the text. -/
abbrev names (ms : List (String × Raw)) : List String :=
  ms.map (·.1)

theorem perm_of_count {own found : List String} (hown : own.Nodup) (hcount : ∀ n ∈ own, found.count n = 1)
    (hknown : ∀ n ∈ found, n ∈ own) : found.Perm own := by
  rw [List.perm_iff_count]
  intro n
  by_cases hn : n ∈ own
  · rw [hcount n hn, hown.count, if_pos hn]
  · rw [List.count_eq_zero_of_not_mem hn, List.count_eq_zero_of_not_mem fun hf => hn (hknown n hf)]

/-- A field with what was found for it fits the members that are left, and comes out as a value. -/
structure Slot.Fits (a : Slot α) (o : Option α) (ms : List (String × Raw)) (x : α) : Prop where
  once : (names ms).count a.name + o.toList.length ≤ 1
  there : a.absent = none → (names ms).count a.name + o.toList.length = 1
  left : (names ms).count a.name + o.toList.length = 0 → a.absent = some x
  read : ∀ r, (a.name, r) ∈ ms → ∃ x, a.read r = .ok x

namespace Slot

theorem gives_close (a : Slot α) (o : Option α) : Gives (a.close o) (a.Fits o []) := by
  cases o with
  | some x =>
    apply Gives.ok
    exact ⟨le_rfl, fun _ => rfl, fun hzero => absurd hzero Nat.one_ne_zero, fun _ hr => absurd hr List.not_mem_nil⟩
  | none =>
    cases habsent : a.absent with
    | none =>
      rw [Slot.close, habsent]
      exact .error
    | some x =>
      rw [Slot.close, habsent]
      have hthere : a.absent ≠ none := by
        rw [habsent]
        exact Option.some_ne_none x
      apply Gives.ok
      exact ⟨Nat.zero_le 1, fun hnone => absurd hnone hthere, fun _ => habsent, fun _ hr => absurd hr List.not_mem_nil⟩

theorem gives_once (a : Slot α) (r : Raw) (o : Option α) :
    Gives (a.once r o) fun o' => o = none ∧ ∃ x, a.read r = .ok x ∧ o' = some x := by
  cases o with
  | some x => exact .error
  | none =>
    rw [Slot.once]
    cases hr : a.read r with
    | error e => exact .error
    | ok x => exact .ok ⟨rfl, x, rfl, rfl⟩

theorem Fits.own {r : Raw} {x y : α} (f : a.Fits (some y) ms x) (hr : a.read r = .ok y) :
    a.Fits none ((a.name, r) :: ms) x := by
  have hone : (names ((a.name, r) :: ms)).count a.name = (names ms).count a.name + 1 := by simp
  refine ⟨?_, fun habsent => ?_, fun hzero => ?_, fun s hs => ?_⟩
  · rw [hone]
    exact f.once
  · rw [hone]
    exact f.there habsent
  · rw [hone] at hzero
    cases hzero
  · rcases List.mem_cons.1 hs with he | hs
    · cases he
      exact ⟨y, hr⟩
    · exact f.read s hs

theorem Fits.other {k : String} {x : α} (f : a.Fits o ms x) (hk : k ≠ a.name) (r : Raw) :
    a.Fits o ((k, r) :: ms) x := by
  have hsame : (names ((k, r) :: ms)).count a.name = (names ms).count a.name := by simp [hk]
  refine ⟨?_, fun habsent => ?_, fun hzero => ?_, fun s hs => ?_⟩
  · rw [hsame]
    exact f.once
  · rw [hsame]
    exact f.there habsent
  · rw [hsame] at hzero
    exact f.left hzero
  · rcases List.mem_cons.1 hs with he | hs
    · cases he
      exact absurd rfl hk
    · exact f.read s hs

end Slot

/-- A strict record has no names but its own. -/
def Knows (h : Header) (own : List String) (ms : List (String × Raw)) : Prop :=
  h.strict = true → ∀ n ∈ names ms, n ∈ own

theorem knows_nil (h : Header) (own : List String) : Knows h own [] :=
  fun _ _ hn => absurd hn List.not_mem_nil

theorem Knows.cons {own : List String} {k : String} (hms : Knows h own ms) (hk : k ∈ own) (r : Raw) :
    Knows h own ((k, r) :: ms) :=
  fun hstrict => List.forall_mem_cons.2 ⟨hk, hms hstrict⟩

theorem gives_otherName (h : Header) (k : String) (own : List String) :
    Gives (otherName h k own) fun _ => h.strict = false := by
  unfold otherName
  cases h.strict with
  | true => exact .error
  | false => exact .ok rfl

theorem knows_of_not_strict {own : List String} (hstrict : h.strict = false) : Knows h own ms := by
  intro hs
  rw [hstrict] at hs
  cases hs

theorem fits_record1Members (h : Header) (a : Slot α) (ms : List (String × Raw)) (o : Option α) :
    Gives (record1Members h a ms o) fun x => a.Fits o ms x ∧ Knows h [a.name] ms := by
  induction ms generalizing o with
  | nil => exact (a.gives_close o).imp fun _ f => ⟨f, knows_nil h _⟩
  | cons m ms ih =>
    obtain ⟨k, r⟩ := m
    rw [record1Members]
    split
    · next hk =>
      subst hk
      apply (a.gives_once r o).bind
      rintro _ ⟨rfl, x, hx, rfl⟩
      apply (ih (some x)).imp
      rintro _ ⟨f, hknows⟩
      exact ⟨f.own hx, hknows.cons (by simp) r⟩
    · next hk =>
      apply (gives_otherName h k [a.name]).bind
      intro _ hstrict
      apply (ih o).imp
      rintro _ ⟨f, _⟩
      exact ⟨f.other hk r, knows_of_not_strict hstrict⟩

theorem fits_record2Members (hba : b.name ≠ a.name) (h : Header) (ms : List (String × Raw)) (o : Option α)
    (u : Option β) :
    Gives (record2Members h a b ms o u) fun z =>
      a.Fits o ms z.1 ∧ b.Fits u ms z.2 ∧ Knows h [a.name, b.name] ms := by
  induction ms generalizing o u with
  | nil =>
    apply (a.gives_close o).bind
    intro x f
    apply (b.gives_close u).bind
    exact fun y g => .ok ⟨f, g, knows_nil h _⟩
  | cons m ms ih =>
    obtain ⟨k, r⟩ := m
    rw [record2Members]
    split
    · next hk =>
      subst hk
      apply (a.gives_once r o).bind
      rintro _ ⟨rfl, x, hx, rfl⟩
      apply (ih (some x) u).imp
      rintro _ ⟨f, g, hknows⟩
      exact ⟨f.own hx, g.other hba.symm r, hknows.cons (by simp) r⟩
    · next hka =>
      split
      · next hk =>
        subst hk
        apply (b.gives_once r u).bind
        rintro _ ⟨rfl, y, hy, rfl⟩
        apply (ih o (some y)).imp
        rintro _ ⟨f, g, hknows⟩
        exact ⟨f.other hba r, g.own hy, hknows.cons (by simp) r⟩
      · next hkb =>
        apply (gives_otherName h k [a.name, b.name]).bind
        intro _ hstrict
        apply (ih o u).imp
        rintro _ ⟨f, g, _⟩
        exact ⟨f.other hka r, g.other hkb r, knows_of_not_strict hstrict⟩

theorem fits_record3Members (hba : b.name ≠ a.name) (hca : c.name ≠ a.name) (hcb : c.name ≠ b.name) (h : Header)
    (ms : List (String × Raw)) (o : Option α) (u : Option β) (v : Option γ) :
    Gives (record3Members h a b c ms o u v) fun z =>
      a.Fits o ms z.1 ∧ b.Fits u ms z.2.1 ∧ c.Fits v ms z.2.2 ∧ Knows h [a.name, b.name, c.name] ms := by
  induction ms generalizing o u v with
  | nil =>
    apply (a.gives_close o).bind
    intro x f
    apply (b.gives_close u).bind
    intro y g
    apply (c.gives_close v).bind
    exact fun z k => .ok ⟨f, g, k, knows_nil h _⟩
  | cons m ms ih =>
    obtain ⟨k, r⟩ := m
    rw [record3Members]
    split
    · next hk =>
      subst hk
      apply (a.gives_once r o).bind
      rintro _ ⟨rfl, x, hx, rfl⟩
      apply (ih (some x) u v).imp
      rintro _ ⟨f, g, e, hknows⟩
      exact ⟨f.own hx, g.other hba.symm r, e.other hca.symm r, hknows.cons (by simp) r⟩
    · next hka =>
      split
      · next hk =>
        subst hk
        apply (b.gives_once r u).bind
        rintro _ ⟨rfl, y, hy, rfl⟩
        apply (ih o (some y) v).imp
        rintro _ ⟨f, g, e, hknows⟩
        exact ⟨f.other hba r, g.own hy, e.other hcb.symm r, hknows.cons (by simp) r⟩
      · next hkb =>
        split
        · next hk =>
          subst hk
          apply (c.gives_once r v).bind
          rintro _ ⟨rfl, z, hz, rfl⟩
          apply (ih o u (some z)).imp
          rintro _ ⟨f, g, e, hknows⟩
          exact ⟨f.other hca r, g.other hcb r, e.own hz, hknows.cons (by simp) r⟩
        · next hkc =>
          apply (gives_otherName h k [a.name, b.name, c.name]).bind
          intro _ hstrict
          apply (ih o u v).imp
          rintro _ ⟨f, g, e, _⟩
          exact ⟨f.other hka r, g.other hkb r, e.other hkc r, knows_of_not_strict hstrict⟩

theorem Slot.Fits.count {x : α} (f : a.Fits none ms x) (ha : a.absent = none) : (names ms).count a.name = 1 :=
  f.there ha

theorem perm_record1 (hstrict : h.strict = true) (ha : a.absent = none) :
    Gives (record1 h a (.object ms)) fun _ => (names ms).Perm [a.name] := by
  apply (fits_record1Members h a ms none).imp
  rintro _ ⟨f, hknows⟩
  refine perm_of_count (by simp) (fun n hn => ?_) (hknows hstrict)
  obtain rfl := List.mem_singleton.1 hn
  exact f.count ha

theorem perm_record2 (hstrict : h.strict = true) (hba : b.name ≠ a.name) (ha : a.absent = none)
    (hb : b.absent = none) : Gives (record2 h a b (.object ms)) fun _ =>
      (names ms).Perm [a.name, b.name] ∧ ∀ s, (b.name, s) ∈ ms → ∃ y, b.read s = .ok y := by
  apply (fits_record2Members hba h ms none none).imp
  rintro _ ⟨f, g, hknows⟩
  refine ⟨?_, g.read⟩
  refine perm_of_count (by simpa using hba.symm) (fun n hn => ?_) (hknows hstrict)
  rcases List.mem_pair.1 hn with rfl | rfl
  · exact f.count ha
  · exact g.count hb

theorem perm_record3 (hstrict : h.strict = true) (hba : b.name ≠ a.name) (hca : c.name ≠ a.name)
    (hcb : c.name ≠ b.name) (ha : a.absent = none) (hb : b.absent = none) :
    Gives (record3 h a b c (.object ms)) fun z =>
      ((names ms).Perm [a.name, b.name, c.name] ∨ c.absent = some z.2.2 ∧ (names ms).Perm [a.name, b.name]) ∧
      ∀ s, (c.name, s) ∈ ms → ∃ z, c.read s = .ok z := by
  apply (fits_record3Members hba hca hcb h ms none none none).imp
  rintro _ ⟨f, g, e, hknows⟩
  refine ⟨?_, e.read⟩
  rcases Nat.le_one_iff_eq_zero_or_eq_one.1 e.once with hzero | hone
  · refine .inr ⟨e.left hzero, perm_of_count (by simpa using hba.symm) (fun n hn => ?_) fun n hn => ?_⟩
    · rcases List.mem_pair.1 hn with rfl | rfl
      · exact f.count ha
      · exact g.count hb
    · have hne : n ≠ c.name := fun he => List.count_eq_zero.1 hzero (he ▸ hn)
      have hmem := hknows hstrict n hn
      simp only [List.mem_cons, List.not_mem_nil, or_false] at hmem ⊢
      tauto
  · refine .inl (perm_of_count ?_ (fun n hn => ?_) (hknows hstrict))
    · simp [hba.symm, hca.symm, hcb.symm]
    · simp only [List.mem_cons, List.not_mem_nil, or_false] at hn
      rcases hn with rfl | rfl | rfl
      · exact f.count ha
      · exact g.count hb
      · exact hone

/-! ### Records as lists -/

variable {rs : List Raw}

theorem Slot.gives_take (ha : a.absent = none) (h : Header) (count done : Nat) (rs : List Raw) :
    Gives (a.take h count done rs) fun z => ∃ r, rs = r :: z.2 ∧ a.read r = .ok z.1 := by
  cases rs with
  | nil =>
    rw [Slot.take, ha]
    exact .error
  | cons r rs =>
    rw [Slot.take]
    cases hr : a.read r with
    | error e => exact .error
    | ok x => exact .ok ⟨r, rfl, hr⟩

theorem gives_noneLeft (count : Nat) (rest : List Raw) : Gives (noneLeft count rest) fun _ => rest = [] := by
  unfold noneLeft
  split
  · next hrest => exact .ok (List.isEmpty_iff.1 hrest)
  · exact .error

theorem list_record2 (ha : a.absent = none) (hb : b.absent = none) :
    Gives (record2 h a b (.list rs)) fun _ => ∃ r s, rs = [r, s] := by
  apply (Slot.gives_take ha h 2 0 rs).bind
  rintro ⟨x, rest⟩ ⟨r, rfl, -⟩
  apply (Slot.gives_take hb h 2 1 rest).bind
  rintro ⟨y, rest⟩ ⟨s, rfl, -⟩
  apply (gives_noneLeft 2 rest).bind
  rintro _ rfl
  exact .ok ⟨r, s, rfl⟩

theorem list_record3 (ha : a.absent = none) (hb : b.absent = none) (hc : c.absent = none) :
    Gives (record3 h a b c (.list rs)) fun _ => ∃ r s t, rs = [r, s, t] ∧ ∃ z, c.read t = .ok z := by
  apply (Slot.gives_take ha h 3 0 rs).bind
  rintro ⟨x, rest⟩ ⟨r, rfl, -⟩
  apply (Slot.gives_take hb h 3 1 rest).bind
  rintro ⟨y, rest⟩ ⟨s, rfl, -⟩
  apply (Slot.gives_take hc h 3 2 rest).bind
  rintro ⟨z, rest⟩ ⟨t, rfl, hz⟩
  apply (gives_noneLeft 3 rest).bind
  rintro _ rfl
  exact .ok ⟨r, s, t, rfl, z, hz⟩

/-- Names that a record does not have and does not refuse make no difference. -/
theorem record2Members_filter (hlax : h.strict = false) (ms : List (String × Raw)) (o : Option α) (u : Option β) :
    record2Members h a b (ms.filter fun m => m.1 = a.name || m.1 = b.name) o u = record2Members h a b ms o u := by
  induction ms generalizing o u with
  | nil => rfl
  | cons m ms ih =>
    obtain ⟨k, r⟩ := m
    by_cases hka : k = a.name
    · simp [record2Members, hka, ih]
    · by_cases hkb : k = b.name
      · simp [record2Members, hkb, ih]
      · simp [record2Members, hka, hkb, ih, otherName, hlax, Bind.bind, Except.bind]

namespace Reader

theorem bind_eq_ok {r : Reader α} {f : α → Reader β} {start stop : Cursor} {y : β}
    (hy : (r >>= f) start = .ok (y, stop)) : ∃ x middle, r start = .ok (x, middle) ∧ f x middle = .ok (y, stop) := by
  change (r start >>= fun z => f z.1 z.2) = _ at hy
  cases hr : r start with
  | error e =>
    rw [hr] at hy
    cases hy
  | ok z =>
    rw [hr] at hy
    exact ⟨z.1, z.2, rfl, hy⟩

theorem bind_ok {r : Reader α} {f : α → Reader β} {start middle : Cursor} {x : α} (hx : r start = .ok (x, middle)) :
    (r >>= f) start = f x middle := by
  change (r start >>= fun z => f z.1 z.2) = _
  rw [hx]
  rfl

/-- A reader is run to the end of the text. -/
theorem run_eq_ok_iff {r : Reader α} {s : String} {x : α} : run r s = .ok x ↔
    ∃ behind stop, r (.start s.toList) = .ok (x, behind) ∧ atEnd behind = .ok ((), stop) := by
  unfold run
  constructor
  · intro hrun
    split at hrun
    · next z hz =>
      cases hrun
      obtain ⟨y, behind, hr, hrest⟩ := bind_eq_ok hz
      obtain ⟨u, stop, hstop, hpure⟩ := bind_eq_ok hrest
      cases hpure
      exact ⟨behind, _, hr, hstop⟩
    · cases hrun
  · rintro ⟨behind, stop, hr, hstop⟩
    rw [bind_ok hr, bind_ok hstop]
    rfl

/-- A message is decoded from what its text says under its kind. -/
theorem decode_eq_ok_iff {f : Family} {content : String → Raw → Decoded α} {s : String} {x : α} :
    decode f content s = .ok x ↔ ∃ kind raw, run (tagged f) s = .ok (kind, raw) ∧ content kind raw = .ok x := by
  unfold decode
  dsimp only
  rw [run_eq_ok_iff]
  constructor
  · rintro ⟨behind, stop, hwhole, hstop⟩
    obtain ⟨⟨kind, raw⟩, middle, htagged, hcontent⟩ := bind_eq_ok hwhole
    cases hx : content kind raw with
    | error e =>
      simp only [hx] at hcontent
      cases hcontent
    | ok y =>
      simp only [hx] at hcontent
      cases hcontent
      exact ⟨kind, raw, run_eq_ok_iff.2 ⟨behind, stop, htagged, hstop⟩, hx⟩
  · rintro ⟨kind, raw, hrun, hx⟩
    obtain ⟨behind, stop, htagged, hstop⟩ := run_eq_ok_iff.1 hrun
    refine ⟨behind, stop, ?_, hstop⟩
    rw [bind_ok htagged]
    simp only [hx]
    rfl

end Reader

end SecureLayout.Json
