import Mathlib.Computability.Language
import Mathlib.Data.String.Basic
import SecureLayout.Pattern.Matching

/-!
What it is for a pattern to match a part of a text, and that `Pattern.ends` finds just those parts. Main
statements: `mem_ends`, which bears out that counts of rounds may be cut to one above the length of the rest;
`isMatch_iff`, a part of the text matches, and `isWholeMatch_iff`, all of it does; `isMatch_eq_isWholeMatch` for
patterns that name both edges of the text. Patterns without edges match by what a text spells, wherever it stands:
sequences spell products of languages, and repetitions without bounds their closure.
-/

namespace SecureLayout.Pattern

/-! ## Rounds of a relation between places -/

/-- `n` rounds lead from the first place to the second. -/
def Rounds (R : Place → Place → Prop) : Nat → Place → Place → Prop
  | 0, p, q => p = q
  | n + 1, p, q => ∃ m, R p m ∧ Rounds R n m q

/-- A round stays where it is or takes characters. -/
def Advances (R : Place → Place → Prop) : Prop :=
  ∀ ⦃p q⦄, R p q → q = p ∨ q.rest.length < p.rest.length

section Rounds

variable {R : Place → Place → Prop} {p q : Place} {n : Nat}

theorem Rounds.add_iff (m n : Nat) : Rounds R (m + n) p q ↔ ∃ x, Rounds R m p x ∧ Rounds R n x q := by
  induction m generalizing p with
  | zero => simp [Rounds]
  | succ m ih =>
    rw [Nat.succ_add]
    simp only [Rounds, ih]
    constructor
    · rintro ⟨y, hy, x, hx, hq⟩
      exact ⟨x, ⟨y, hy, hx⟩, hq⟩
    · rintro ⟨x, ⟨y, hy, hx⟩, hq⟩
      exact ⟨y, hy, x, hx, hq⟩

theorem Rounds.advances (hR : Advances R) (h : Rounds R n p q) : q = p ∨ q.rest.length < p.rest.length := by
  induction n generalizing p with
  | zero => exact .inl h.symm
  | succ n ih =>
    obtain ⟨m, hm, hq⟩ := h
    rcases hR hm with rfl | hlt
    · exact ih hq
    · rcases ih hq with rfl | h
      · exact .inr hlt
      · exact .inr (h.trans hlt)

theorem Rounds.length_le (hR : Advances R) (h : Rounds R n p q) : q.rest.length ≤ p.rest.length := by
  rcases h.advances hR with rfl | h
  · exact le_rfl
  · exact h.le

/-- Of more rounds than there are characters one stays where it is: it may be left out or taken twice. -/
theorem Rounds.less_and_more (hR : Advances R) (hn : p.rest.length ≤ n) (h : Rounds R (n + 1) p q) :
    Rounds R n p q ∧ Rounds R (n + 2) p q := by
  induction n generalizing p with
  | zero =>
    obtain ⟨m, hm, rfl⟩ := h
    rcases hR hm with rfl | hlt
    · exact ⟨rfl, m, hm, m, hm, rfl⟩
    · omega
  | succ n ih =>
    obtain ⟨m, hm, hq⟩ := h
    rcases hR hm with rfl | hlt
    · exact ⟨hq, m, hm, m, hm, hq⟩
    · obtain ⟨hless, hmore⟩ := ih (by omega) hq
      exact ⟨⟨m, hm, hless⟩, m, hm, hmore⟩

theorem Rounds.succ_iff (hR : Advances R) (hn : p.rest.length < n) : Rounds R (n + 1) p q ↔ Rounds R n p q := by
  obtain ⟨n, rfl⟩ := Nat.exists_eq_add_of_le' (show 1 ≤ n by omega)
  exact ⟨fun h => (h.less_and_more hR hn.le).1, fun h => (h.less_and_more hR (by omega)).2⟩

/-- No number of rounds above the number of characters leads elsewhere. -/
theorem Rounds.min_iff (hR : Advances R) {cap : Nat} (hcap : p.rest.length < cap) (n : Nat) :
    Rounds R (min n cap) p q ↔ Rounds R n p q := by
  rcases le_total n cap with hn | hn
  · rw [min_eq_left hn]
  · rw [min_eq_right hn]
    induction n, hn using Nat.le_induction with
    | base => rfl
    | succ n hn ih => rw [ih, Rounds.succ_iff hR (hcap.trans_le hn)]

/-- Both parts of a count may be cut. -/
theorem Rounds.cut (hR : Advances R) {cap : Nat} (hcap : p.rest.length < cap) {least k : Nat}
    (h : Rounds R (least + k) p q) : ∃ m, Rounds R (min least cap) p m ∧ Rounds R (min k cap) m q := by
  obtain ⟨m, hm, hq⟩ := (Rounds.add_iff ..).1 h
  have hcapm := (hm.length_le hR).trans_lt hcap
  exact ⟨m, (Rounds.min_iff hR hcap _).2 hm, (Rounds.min_iff hR hcapm _).2 hq⟩

theorem Rounds.uncut (hR : Advances R) {cap : Nat} (hcap : p.rest.length < cap) {least k : Nat} {m : Place}
    (hm : Rounds R (min least cap) p m) (hq : Rounds R k m q) : Rounds R (least + k) p q :=
  (Rounds.add_iff ..).2 ⟨m, (Rounds.min_iff hR hcap _).1 hm, hq⟩

end Rounds

/-! ## Matches -/

/-- A match may run from the first place to the second. A count with `most` below `least`, which no text of a pattern
gives, asks for `least` rounds. -/
def Spans : Pattern → Place → Place → Prop
  | empty, p, q => q = p
  | one set, p, q => ∃ c, set.contains c = true ∧ p.rest = c :: q.rest ∧ q.prev = some c
  | edge e, p, q => e.holds p = true ∧ q = p
  | seq a b, p, q => ∃ m, a.Spans p m ∧ b.Spans m q
  | either a b, p, q => a.Spans p q ∨ b.Spans p q
  | rounds a least most, p, q =>
    ∃ n, least ≤ n ∧ (∀ m ∈ most, n ≤ max least m) ∧ Rounds a.Spans n p q

theorem spans_advances (a : Pattern) : Advances a.Spans := by
  induction a with
  | empty => exact fun _ _ h => .inl h
  | one set =>
    rintro p q ⟨c, -, hp, -⟩
    simp [hp]
  | edge e => exact fun _ _ h => .inl h.2
  | seq a b iha ihb =>
    rintro p q ⟨m, hm, hq⟩
    rcases iha hm with rfl | hlt
    · exact ihb hq
    · rcases ihb hq with rfl | h
      · exact .inr hlt
      · exact .inr (h.trans hlt)
  | either a b iha ihb =>
    rintro p q (h | h)
    · exact iha h
    · exact ihb h
  | rounds a least most ih =>
    rintro p q ⟨n, -, -, h⟩
    exact h.advances ih

/-! ## The places that `ends` gives -/

variable {step : Place → List Place} {ps : List Place} {q : Place}

theorem mem_advance : q ∈ advance step ps ↔ ∃ p ∈ ps, q ∈ step p := by
  have hfold : ∀ (ps acc : List Place),
      q ∈ ps.foldl (fun acc p => addPlaces acc (step p)) acc ↔ q ∈ acc ∨ ∃ p ∈ ps, q ∈ step p := by
    intro ps
    induction ps with
    | nil => simp
    | cons p ps ih =>
      intro acc
      rw [List.foldl_cons, ih, mem_addPlaces]
      simp [or_assoc]
  simpa [advance] using hfold ps []

theorem mem_steps (n : Nat) : q ∈ steps step n ps ↔ ∃ p ∈ ps, Rounds (fun p q => q ∈ step p) n p q := by
  induction n generalizing ps with
  | zero => simp [steps, Rounds]
  | succ n ih =>
    simp only [steps, ih, mem_advance, Rounds]
    constructor
    · rintro ⟨m, ⟨p, hp, hm⟩, hq⟩
      exact ⟨p, hp, m, hm, hq⟩
    · rintro ⟨p, hp, m, hm, hq⟩
      exact ⟨m, ⟨p, hp, hm⟩, hq⟩

theorem mem_upTo (n : Nat) :
    q ∈ upTo step n ps ↔ ∃ p ∈ ps, ∃ k ≤ n, Rounds (fun p q => q ∈ step p) k p q := by
  induction n generalizing ps with
  | zero => simp [upTo, Rounds]
  | succ n ih =>
    simp only [upTo, ih, mem_addPlaces, mem_advance]
    constructor
    · rintro ⟨m, hm | ⟨p, hp, hm⟩, k, hk, hq⟩
      · exact ⟨m, hm, k, by omega, hq⟩
      · exact ⟨p, hp, k + 1, by omega, m, hm, hq⟩
    · rintro ⟨p, hp, k, hk, hq⟩
      cases k with
      | zero => exact ⟨p, .inl hp, 0, by omega, hq⟩
      | succ k =>
        obtain ⟨m, hm, hq⟩ := hq
        exact ⟨m, .inr ⟨p, hp, hm⟩, k, by omega, hq⟩

/-- `ends` with its counts uncut. -/
theorem mem_ends_rounds {a : Pattern} {p : Place} (ha : ∀ p q, q ∈ a.ends p ↔ a.Spans p q) (least : Nat)
    (most : Option Nat) : q ∈ (rounds a least most).ends p ↔ (rounds a least most).Spans p q := by
  have hstep : (fun p q => q ∈ a.ends p) = a.Spans := by
    funext p q
    exact propext (ha p q)
  have hR := a.spans_advances
  have hcap : p.rest.length < p.rest.length + 1 := Nat.lt_succ_self _
  cases most with
  | none =>
    simp only [ends, mem_upTo, mem_steps, hstep, List.mem_singleton, exists_eq_left]
    constructor
    · rintro ⟨m, hm, k, -, hq⟩
      exact ⟨least + k, by omega, by simp, hm.uncut hR hcap hq⟩
    · rintro ⟨n, hn, -, hq⟩
      obtain ⟨k, rfl⟩ := Nat.exists_eq_add_of_le hn
      obtain ⟨m, hm, hq⟩ := hq.cut hR hcap
      exact ⟨m, hm, _, min_le_right .., hq⟩
  | some most =>
    simp only [ends, mem_upTo, mem_steps, hstep, List.mem_singleton, exists_eq_left]
    constructor
    · rintro ⟨m, hm, k, hk, hq⟩
      exact ⟨least + k, by omega, by simp; omega, hm.uncut hR hcap hq⟩
    · rintro ⟨n, hn, hmost, hq⟩
      obtain ⟨k, rfl⟩ := Nat.exists_eq_add_of_le hn
      have hk := hmost most rfl
      obtain ⟨m, hm, hq⟩ := hq.cut hR hcap
      exact ⟨m, hm, _, by omega, hq⟩

/-- `ends` gives every place where a match may end and no other. -/
theorem mem_ends (a : Pattern) (p q : Place) : q ∈ a.ends p ↔ a.Spans p q := by
  induction a generalizing p q with
  | empty => simp [ends, Spans]
  | one set =>
    obtain ⟨prev, rest⟩ := p
    obtain ⟨prev', rest'⟩ := q
    cases rest with
    | nil => simp [ends, Spans]
    | cons c r =>
      simp only [ends, Spans]
      split_ifs with h
      · simp only [List.mem_singleton, Place.mk.injEq, List.cons.injEq]
        constructor
        · rintro ⟨rfl, rfl⟩
          exact ⟨c, h, ⟨rfl, rfl⟩, rfl⟩
        · rintro ⟨d, -, ⟨rfl, rfl⟩, rfl⟩
          exact ⟨rfl, rfl⟩
      · simp only [List.not_mem_nil, false_iff, List.cons.injEq]
        rintro ⟨d, hd, ⟨rfl, -⟩, -⟩
        exact h hd
  | edge e =>
    simp only [ends, Spans]
    split_ifs with h <;> simp [h]
  | seq a b iha ihb => simp only [ends, mem_advance, iha, ihb, Spans]
  | either a b iha ihb => simp only [ends, mem_addPlaces, iha, ihb, Spans]
  | rounds a least most ih => exact mem_ends_rounds ih least most

end SecureLayout.Pattern

/-! ## Parts of a text -/

namespace SecureLayout.Place

/-- The place between the characters before it and those after it. -/
def between (before after : List Char) : Place := ⟨before.getLast?, after⟩

theorem mem_onwards {p : Place} {before rest : List Char} :
    p ∈ onwards before.getLast? rest ↔ ∃ r after, rest = r ++ after ∧ p = between (before ++ r) after := by
  induction rest generalizing before with
  | nil =>
    simp only [onwards, List.mem_singleton, List.nil_eq_append_iff]
    constructor
    · rintro rfl
      exact ⟨[], [], ⟨rfl, rfl⟩, by simp [between]⟩
    · rintro ⟨r, after, ⟨rfl, rfl⟩, rfl⟩
      simp [between]
  | cons c rest ih =>
    have hlast : some c = (before ++ [c]).getLast? := by simp
    rw [onwards, List.mem_cons, hlast, ih]
    constructor
    · rintro (rfl | ⟨r, after, rfl, rfl⟩)
      · exact ⟨[], c :: rest, rfl, by simp [between]⟩
      · exact ⟨c :: r, after, rfl, by simp⟩
    · rintro ⟨r, after, hr, rfl⟩
      cases r with
      | nil =>
        obtain rfl : c :: rest = after := hr
        exact .inl (by simp [between])
      | cons d r =>
        obtain ⟨rfl, rfl⟩ : c = d ∧ rest = r ++ after := by simpa using hr
        exact .inr ⟨r, after, rfl, by simp⟩

end SecureLayout.Place

namespace SecureLayout.Pattern

open Place (between)

/-- The part of a text that stands between what is before and what is after it matches. -/
def Matches (a : Pattern) (before part after : List Char) : Prop :=
  a.Spans (between before (part ++ after)) (between (before ++ part) after)

/-- What a match runs over is a part of the text: no place that is reached lies outside of it. -/
theorem Spans.part {a : Pattern} {before rest : List Char} {q : Place} (h : a.Spans (between before rest) q) :
    ∃ part after, rest = part ++ after ∧ q = between (before ++ part) after := by
  induction a generalizing before rest q with
  | empty => exact ⟨[], rest, rfl, by simpa [Spans] using h⟩
  | one set =>
    obtain ⟨prev, after⟩ := q
    obtain ⟨c, -, hrest, hprev⟩ := h
    exact ⟨[c], after, hrest, by simpa [between] using hprev⟩
  | edge e => exact ⟨[], rest, rfl, by simpa using h.2⟩
  | seq a b iha ihb =>
    obtain ⟨m, hm, hq⟩ := h
    obtain ⟨x, r, rfl, rfl⟩ := iha hm
    obtain ⟨y, after, rfl, rfl⟩ := ihb hq
    exact ⟨x ++ y, after, by simp, by simp⟩
  | either a b iha ihb =>
    rcases h with h | h
    · exact iha h
    · exact ihb h
  | rounds a least most ih =>
    obtain ⟨n, -, -, h⟩ := h
    induction n generalizing before rest with
    | zero => exact ⟨[], rest, rfl, by simpa using h.symm⟩
    | succ n ihn =>
      obtain ⟨m, hm, hq⟩ := h
      obtain ⟨x, r, rfl, rfl⟩ := ih hm
      obtain ⟨y, after, rfl, rfl⟩ := ihn hq
      exact ⟨x ++ y, after, by simp, by simp⟩

/-- Searching: the pattern matches some part of the text, be it an empty one. -/
theorem isMatch_iff (a : Pattern) (s : String) :
    a.isMatch s = true ↔ ∃ before part after, s.toList = before ++ part ++ after ∧ a.Matches before part after := by
  have hstart : (none : Option Char) = ([] : List Char).getLast? := rfl
  simp only [isMatch, List.any_eq_true, Bool.not_eq_true', List.isEmpty_eq_false_iff_exists_mem, mem_ends, hstart,
    Place.mem_onwards, List.nil_append]
  constructor
  · rintro ⟨_, ⟨before, rest, hs, rfl⟩, q, hq⟩
    obtain ⟨part, after, rfl, rfl⟩ := hq.part
    exact ⟨before, part, after, by rw [hs, List.append_assoc], hq⟩
  · rintro ⟨before, part, after, hs, h⟩
    exact ⟨_, ⟨before, part ++ after, by rw [hs, List.append_assoc], rfl⟩, _, h⟩

/-- Matching all of a text: from its first character to its last. -/
theorem isWholeMatch_iff (a : Pattern) (s : String) : a.isWholeMatch s = true ↔ a.Matches [] s.toList [] := by
  simp only [isWholeMatch, List.any_eq_true, mem_ends, List.isEmpty_iff]
  constructor
  · rintro ⟨q, (hq : a.Spans (between [] s.toList) q), hrest⟩
    obtain ⟨part, after, hs, rfl⟩ := hq.part
    obtain rfl : after = [] := hrest
    rw [List.append_nil] at hs
    subst hs
    rw [Matches, List.append_nil]
    exact hq
  · intro h
    rw [Matches, List.append_nil] at h
    exact ⟨_, h, rfl⟩

theorem isMatch_of_isWholeMatch {a : Pattern} {s : String} (h : a.isWholeMatch s = true) : a.isMatch s = true :=
  (isMatch_iff a s).2 ⟨[], s.toList, [], by simp, (isWholeMatch_iff a s).1 h⟩

/-! ## Patterns that name the edges of the text -/

/-- Every match begins where the text does. -/
def fromStart : Pattern → Bool
  | edge .textStart => true
  | seq a _ => a.fromStart
  | either a b => a.fromStart && b.fromStart
  | _ => false

/-- Every match ends where the text does. -/
def toEnd : Pattern → Bool
  | edge .textEnd => true
  | seq _ b => b.toEnd
  | either a b => a.toEnd && b.toEnd
  | _ => false

def isAnchored (a : Pattern) : Bool := a.fromStart && a.toEnd

theorem Spans.prev_eq_none {a : Pattern} {p q : Place} (ha : a.fromStart = true) (h : a.Spans p q) : p.prev = none := by
  fun_induction fromStart a generalizing q with
  | case1 => simpa [Edge.holds] using h.1
  | case2 a b ih =>
    obtain ⟨m, hm, -⟩ := h
    exact ih ha hm
  | case3 a b iha ihb =>
    obtain ⟨ha, hb⟩ := Bool.and_eq_true_iff.1 ha
    rcases h with h | h
    · exact iha ha h
    · exact ihb hb h
  | case4 => cases ha

theorem Spans.rest_eq_nil {a : Pattern} {p q : Place} (ha : a.toEnd = true) (h : a.Spans p q) : q.rest = [] := by
  fun_induction toEnd a generalizing p with
  | case1 =>
    obtain ⟨hend, rfl⟩ := h
    simpa [Edge.holds] using hend
  | case2 a b ih =>
    obtain ⟨m, -, hq⟩ := h
    exact ih ha hq
  | case3 a b iha ihb =>
    obtain ⟨ha, hb⟩ := Bool.and_eq_true_iff.1 ha
    rcases h with h | h
    · exact iha ha h
    · exact ihb hb h
  | case4 => cases ha

/-- A pattern that names both edges matches all of a text or no part of it. -/
theorem isMatch_eq_isWholeMatch {a : Pattern} (ha : a.isAnchored = true) (s : String) :
    a.isMatch s = a.isWholeMatch s := by
  obtain ⟨hstart, hend⟩ := Bool.and_eq_true_iff.1 ha
  rw [Bool.eq_iff_iff]
  refine ⟨fun h => ?_, isMatch_of_isWholeMatch⟩
  rw [isMatch_iff] at h
  rw [isWholeMatch_iff]
  obtain ⟨before, part, after, hs, h⟩ := h
  obtain rfl : before = [] := List.getLast?_eq_none_iff.1 (h.prev_eq_none hstart)
  obtain rfl : after = [] := h.rest_eq_nil hend
  obtain rfl : s.toList = part := by simpa using hs
  exact h

end SecureLayout.Pattern

namespace SecureLayout.Pattern

open Computability

variable {a b : Pattern} {L M : Language Char} {set : CharSet} {before part after : List Char}

/-! ### Parts of matches -/

theorem matches_one_iff : (one set).Matches before part after ↔ ∃ c, set.contains c = true ∧ part = [c] := by
  constructor
  · rintro ⟨c, hc, hrest, -⟩
    have hpart : part ++ after = [c] ++ after := hrest
    exact ⟨c, hc, List.append_cancel_right hpart⟩
  · rintro ⟨c, hc, rfl⟩
    exact ⟨c, hc, rfl, by simp [Place.between]⟩

theorem matches_edge_iff (e : Edge) :
    (edge e).Matches before part after ↔ part = [] ∧ e.holds (.between before after) = true := by
  constructor
  · rintro ⟨hholds, hplace⟩
    have hrest : after = part ++ after := congrArg Place.rest hplace
    obtain rfl : part = [] := by simpa using hrest.symm
    exact ⟨rfl, hholds⟩
  · rintro ⟨rfl, hholds⟩
    exact ⟨hholds, by simp⟩

/-- What two relations lead over is cut at the place between them. -/
theorem cut_part {R : Place → Place → Prop} {m : Place} (hm : a.Spans (.between before (part ++ after)) m)
    (hR : ∀ {p s : List Char} {q : Place}, R (.between p s) q → ∃ x t, s = x ++ t ∧ q = .between (p ++ x) t)
    (hq : R m (.between (before ++ part) after)) :
    ∃ x y, part = x ++ y ∧ a.Matches before x (y ++ after) ∧
      R (.between (before ++ x) (y ++ after)) (.between (before ++ x ++ y) after) := by
  obtain ⟨x, r, hx, rfl⟩ := hm.part
  obtain ⟨y, t, rfl, hy⟩ := hR hq
  obtain rfl : after = t := congrArg Place.rest hy
  rw [← List.append_assoc] at hx
  obtain rfl := List.append_cancel_right hx
  refine ⟨x, y, rfl, ?_, ?_⟩
  · rwa [Matches, ← List.append_assoc]
  · rwa [List.append_assoc before]

theorem matches_seq_iff : (seq a b).Matches before part after ↔
    ∃ x y, part = x ++ y ∧ a.Matches before x (y ++ after) ∧ b.Matches (before ++ x) y after := by
  constructor
  · rintro ⟨m, hm, hq⟩
    exact cut_part hm (fun h => h.part) hq
  · rintro ⟨x, y, rfl, hx, hy⟩
    refine ⟨.between (before ++ x) (y ++ after), ?_, ?_⟩
    · rwa [List.append_assoc]
    · rwa [← List.append_assoc]

/-! ### Languages -/

/-- What a pattern matches does not depend on what stands around it. -/
def Spells (a : Pattern) (L : Language Char) : Prop :=
  ∀ before part after, a.Matches before part after ↔ part ∈ L

/-- Up to the end of the text the pattern matches just these, whatever stands before. -/
def SpellsRest (a : Pattern) (L : Language Char) : Prop :=
  ∀ before part, a.Matches before part [] ↔ part ∈ L

/-- Single characters of a set. -/
def letters (set : CharSet) : Language Char :=
  {s | ∃ c, set.contains c = true ∧ s = [c]}

theorem spells_one (set : CharSet) : (one set).Spells (letters set) :=
  fun _ _ _ => matches_one_iff

theorem matches_seq_of_spells (ha : a.Spells L) : (seq a b).Matches before part after ↔
    ∃ x ∈ L, ∃ y, b.Matches (before ++ x) y after ∧ x ++ y = part := by
  rw [matches_seq_iff]
  constructor
  · rintro ⟨x, y, rfl, hx, hy⟩
    exact ⟨x, (ha _ _ _).1 hx, y, hy, rfl⟩
  · rintro ⟨x, hx, y, hy, rfl⟩
    exact ⟨x, y, rfl, (ha _ _ _).2 hx, hy⟩

theorem spells_seq (ha : a.Spells L) (hb : b.Spells M) : (seq a b).Spells (L * M) := by
  intro before part after
  simp only [matches_seq_of_spells ha, hb _ _ _, Language.mem_mul]

theorem rounds_part {n : Nat} {p s : List Char} {q : Place} (h : Rounds a.Spans n (.between p s) q) :
    ∃ x t, s = x ++ t ∧ q = .between (p ++ x) t :=
  Spans.part (a := rounds a 0 none) ⟨n, Nat.zero_le n, nofun, h⟩

theorem rounds_iff_mem_pow (ha : a.Spells L) (n : Nat) (before part after : List Char) :
    Rounds a.Spans n (.between before (part ++ after)) (.between (before ++ part) after) ↔ part ∈ L ^ n := by
  induction n generalizing before part with
  | zero =>
    rw [pow_zero, Language.mem_one, Rounds]
    constructor
    · intro h
      have hrest : part ++ after = after := congrArg Place.rest h
      simpa using hrest
    · rintro rfl
      simp
  | succ n ih =>
    rw [pow_succ', Language.mem_mul]
    constructor
    · rintro ⟨m, hm, hq⟩
      obtain ⟨x, y, rfl, hx, hy⟩ := cut_part hm rounds_part hq
      exact ⟨x, (ha _ _ _).1 hx, y, (ih _ _).1 hy, rfl⟩
    · rintro ⟨x, hx, y, hy, rfl⟩
      refine ⟨.between (before ++ x) (y ++ after), ?_, ?_⟩
      · rw [List.append_assoc]
        exact (ha _ _ _).2 hx
      · rw [← List.append_assoc]
        exact (ih _ _).2 hy

theorem spells_many (ha : a.Spells L) : (rounds a 0 none).Spells L∗ := by
  intro before part after
  simp only [Matches, Spans, Nat.zero_le, true_and, Option.mem_def, reduceCtorEq, false_implies, implies_true,
    rounds_iff_mem_pow ha, Language.kstar_eq_iSup_pow, Language.mem_iSup]

theorem spellsRest_textEnd : (edge .textEnd).SpellsRest 1 := by
  intro before part
  simp [matches_edge_iff, Edge.holds, Place.between, Language.mem_one]

theorem spellsRest_seq (ha : a.Spells L) (hb : b.SpellsRest M) : (seq a b).SpellsRest (L * M) := by
  intro before part
  simp only [matches_seq_of_spells ha, hb _ _, Language.mem_mul]

/-- From the first character of a text to its last. -/
theorem matches_textStart_iff (ha : a.SpellsRest L) (s : List Char) :
    (seq (edge .textStart) a).Matches [] s [] ↔ s ∈ L := by
  simp only [matches_seq_iff, matches_edge_iff, ha _ _]
  constructor
  · rintro ⟨x, y, rfl, ⟨rfl, -⟩, hy⟩
    exact hy
  · intro hs
    exact ⟨[], s, rfl, ⟨rfl, rfl⟩, hs⟩

theorem mem_kstar_letters (s : List Char) : s ∈ (letters set)∗ ↔ ∀ c ∈ s, set.contains c = true := by
  rw [Language.mem_kstar]
  constructor
  · rintro ⟨ws, rfl, hws⟩ c hc
    obtain ⟨w, hw, hcw⟩ := List.mem_flatten.1 hc
    obtain ⟨d, hd, rfl⟩ := hws w hw
    rwa [List.mem_singleton.1 hcw]
  · intro hs
    refine ⟨s.map ([·]), by rw [← List.flatMap_def, List.flatMap_singleton'], fun w hw => ?_⟩
    obtain ⟨c, hc, rfl⟩ := List.mem_map.1 hw
    exact ⟨c, hs c hc, rfl⟩

end SecureLayout.Pattern
