import SecureLayout.Proofs.Template.Reading
import SecureLayout.Proofs.Wire.ClockOrder

/-!
Places in a text, counted in octets of its UTF-8, and slices between them. Main statements: a slice is given exactly
if both its ends are places between characters of the text and stand in order; and a loop whose rounds keep an answer
and come nearer to it ends with that answer.
-/

namespace SecureLayout.Text

open Template (byteLength_append)

variable {s u v w : List Char} {c : Char}

/-! ### Octets -/

/-- Octets of a text in UTF-8, each as the character with its number. -/
def octets (s : List Char) : List Char :=
  s.flatMap fun c => (Wire.charOctets c).map Char.ofNat

theorem octets_append (s t : List Char) : octets (s ++ t) = octets s ++ octets t :=
  List.flatMap_append

theorem octets_cons (c : Char) (s : List Char) : octets (c :: s) = octets [c] ++ octets s :=
  octets_append [c] s

theorem byteLength_singleton (c : Char) : byteLength [c] = c.utf8Size :=
  Nat.zero_add _

theorem byteLength_cons (c : Char) (s : List Char) : byteLength (c :: s) = c.utf8Size + byteLength s := by
  rw [← byteLength_singleton, ← byteLength_append, List.singleton_append]

theorem length_octets (s : List Char) : (octets s).length = byteLength s := by
  induction s with
  | nil => rfl
  | cons c s ih =>
    have hchar : (octets [c]).length = c.utf8Size := by
      simp [octets, Wire.charOctets, String.length_utf8EncodeChar]
    rw [octets_cons, List.length_append, ih, hchar, byteLength_cons]

theorem drop_octets (u v : List Char) : (octets (u ++ v)).drop (byteLength u) = octets v := by
  rw [octets_append, List.drop_left' (length_octets u)]

theorem octets_ne_nil (c : Char) : ∃ b w, octets [c] = b :: w := by
  refine List.exists_cons_of_ne_nil fun hnil => ?_
  have := length_octets [c]
  rw [hnil, byteLength_singleton] at this
  exact absurd c.utf8Size_pos (by rw [← this]; decide)

theorem octets_of_ascii (hc : c.toNat < 128) : octets [c] = [c] := by
  have h : Wire.charOctets c = [c.toNat] := by
    rw [Wire.charOctets_eq, if_pos (by omega)]
  rw [octets, List.flatMap_singleton, h, List.map_singleton, Char.ofNat_toNat]

/-- No octet of a character beyond ASCII is an ASCII character. -/
theorem foreign_of_mem_octets (hc : 128 ≤ c.toNat) : ∀ b ∈ octets [c], 128 ≤ b.toNat := by
  have hsmall : ∀ n, 128 ≤ n → n < 256 → 128 ≤ (Char.ofNat n).toNat := by
    intro n hge hlt
    rw [Char.toNat_ofNat, if_pos (Or.inl (by omega))]
    exact hge
  have hlt : c.toNat < 0x110000 := by
    have h := c.valid
    simp only [UInt32.isValidChar, Nat.isValidChar] at h
    change c.val.toNat < _
    omega
  intro b hb
  rw [octets, List.flatMap_singleton, Wire.charOctets_eq, if_neg (by omega)] at hb
  obtain ⟨n, hn, rfl⟩ := List.mem_map.1 hb
  refine hsmall n ?_ ?_
  all_goals
    split_ifs at hn <;> simp only [List.mem_cons, List.not_mem_nil, or_false] at hn <;> omega

theorem utf8Size_of_ascii (hc : c.toNat < 128) : c.utf8Size = 1 := by
  rw [← byteLength_singleton, ← length_octets, octets_of_ascii hc]
  rfl

theorem eq_nil_of_byteLength (h : byteLength s = 0) : s = [] := by
  cases s with
  | nil => rfl
  | cons c s =>
    have := c.utf8Size_pos
    rw [byteLength_cons] at h
    omega

/-- An ASCII character among the octets of a text begins at a place between characters. -/
theorem place_of_ascii {n : Nat} {r : List Char} (hc : c.toNat < 128) (h : (octets s).drop n = c :: r) :
    ∃ u v, s = u ++ c :: v ∧ byteLength u = n ∧ octets v = r := by
  induction s generalizing n with
  | nil =>
    rw [octets, List.flatMap_nil, List.drop_nil] at h
    cases h
  | cons a s ih =>
    have hlength : (octets [a]).length = a.utf8Size := by rw [length_octets, byteLength_singleton]
    rw [octets_cons, List.drop_append, hlength] at h
    by_cases hn : a.utf8Size ≤ n
    · rw [List.drop_eq_nil_of_le (hlength.trans_le hn)] at h
      obtain ⟨u, v, rfl, hu, hv⟩ := ih h
      exact ⟨a :: u, v, rfl, by rw [byteLength_cons]; omega, hv⟩
    · rw [Nat.sub_eq_zero_of_le (Nat.le_of_not_le hn), List.drop_zero] at h
      by_cases ha : a.toNat < 128
      · have hsize := utf8Size_of_ascii ha
        obtain rfl : n = 0 := by omega
        rw [octets_of_ascii ha] at h
        obtain ⟨rfl, hr⟩ := List.cons.inj h
        exact ⟨[], s, rfl, rfl, hr⟩
      · -- No octet of this character is one of ASCII.
        exfalso
        cases hdrop : (octets [a]).drop n with
        | nil =>
          have := List.drop_eq_nil_iff.1 hdrop
          omega
        | cons b bs =>
          rw [hdrop] at h
          have hb := foreign_of_mem_octets (Nat.le_of_not_lt ha) b
            (List.mem_of_mem_drop (hdrop ▸ List.mem_cons_self))
          rw [(List.cons.inj h).1] at hb
          omega

/-- ASCII characters among the octets of a text are characters of it. -/
theorem octets_eq_ascii_append {r : List Char} (hw : ∀ c ∈ w, c.toNat < 128) (h : octets s = w ++ r) :
    ∃ v, s = w ++ v ∧ octets v = r := by
  induction w generalizing s with
  | nil => exact ⟨s, rfl, h⟩
  | cons c w ih =>
    obtain ⟨hc, hw⟩ := List.forall_mem_cons.1 hw
    obtain ⟨u, v, rfl, hu, hv⟩ := place_of_ascii (n := 0) hc h
    obtain rfl := eq_nil_of_byteLength hu
    obtain ⟨v, rfl, hr⟩ := ih hw hv
    exact ⟨v, rfl, hr⟩

/-- The first octet tells an ASCII character. -/
theorem head?_octets_iff (hc : c.toNat < 128) : (octets s).head? = some c ↔ s.head? = some c := by
  constructor
  · intro h
    obtain ⟨r, hr⟩ := List.head?_eq_some_iff.1 h
    obtain ⟨v, rfl, -⟩ := octets_eq_ascii_append (w := [c]) (List.forall_mem_singleton.2 hc) hr
    rfl
  · intro h
    obtain ⟨r, rfl⟩ := List.head?_eq_some_iff.1 h
    rw [octets_cons, octets_of_ascii hc]
    rfl

/-! ### Slices -/

/-- The text behind its first octets, if a character begins there. -/
def dropOctets : Nat → List Char → Option (List Char)
  | 0, s => some s
  | _ + 1, [] => none
  | n + 1, c :: s => if c.utf8Size ≤ n + 1 then dropOctets (n + 1 - c.utf8Size) s else none

/-- The first octets of a text, if a character ends there. -/
def takeOctets : Nat → List Char → Option (List Char)
  | 0, _ => some []
  | _ + 1, [] => none
  | n + 1, c :: s => if c.utf8Size ≤ n + 1 then (takeOctets (n + 1 - c.utf8Size) s).map (c :: ·) else none

/-- The text from a place up to another. Refused if they are not in order, if one is beyond the end, or if one is
inside a character. -/
def slice? (s : List Char) (first last : Nat) : Option (List Char) :=
  if first ≤ last then (dropOctets first s).bind (takeOctets (last - first)) else none

theorem dropOctets_eq_some {n : Nat} : dropOctets n s = some v ↔ ∃ u, s = u ++ v ∧ byteLength u = n := by
  constructor
  · intro h
    fun_induction dropOctets n s with
    | case1 s =>
      cases h
      exact ⟨[], rfl, rfl⟩
    | case2 => cases h
    | case3 n c s hle ih =>
      obtain ⟨u, rfl, hu⟩ := ih h
      exact ⟨c :: u, rfl, by rw [byteLength_cons]; omega⟩
    | case4 => cases h
  · rintro ⟨u, rfl, rfl⟩
    induction u with
    | nil => cases v <;> rfl
    | cons c u ih =>
      obtain ⟨k, hk⟩ := Nat.exists_eq_add_one.2 c.utf8Size_pos
      have hsucc : c.utf8Size + byteLength u = k + byteLength u + 1 := by omega
      have hsub : k + byteLength u + 1 - c.utf8Size = byteLength u := by omega
      rw [byteLength_cons, hsucc, List.cons_append, dropOctets, if_pos (by omega), hsub, ih]

theorem takeOctets_eq_some {n : Nat} : takeOctets n s = some u ↔ ∃ v, s = u ++ v ∧ byteLength u = n := by
  constructor
  · intro h
    fun_induction takeOctets n s generalizing u with
    | case1 s =>
      cases h
      exact ⟨s, rfl, rfl⟩
    | case2 => cases h
    | case3 n c s hle ih =>
      obtain ⟨u, hu, rfl⟩ := Option.map_eq_some_iff.1 h
      obtain ⟨v, rfl, hu⟩ := ih hu
      exact ⟨v, rfl, by rw [byteLength_cons]; omega⟩
    | case4 => cases h
  · rintro ⟨v, rfl, rfl⟩
    induction u with
    | nil => cases v <;> rfl
    | cons c u ih =>
      obtain ⟨k, hk⟩ := Nat.exists_eq_add_one.2 c.utf8Size_pos
      have hsucc : c.utf8Size + byteLength u = k + byteLength u + 1 := by omega
      have hsub : k + byteLength u + 1 - c.utf8Size = byteLength u := by omega
      rw [byteLength_cons, hsucc, List.cons_append, takeOctets, if_pos (by omega), hsub, ih]
      rfl

/-- What a slice is, and when there is one. -/
theorem slice?_eq_some {first last : Nat} : slice? s first last = some w ↔
    ∃ u v, s = u ++ (w ++ v) ∧ byteLength u = first ∧ byteLength u + byteLength w = last := by
  unfold slice?
  constructor
  · intro h
    split at h
    · next hle =>
      obtain ⟨r, hr, hw⟩ := Option.bind_eq_some_iff.1 h
      obtain ⟨u, rfl, hu⟩ := dropOctets_eq_some.1 hr
      obtain ⟨v, rfl, hw⟩ := takeOctets_eq_some.1 hw
      exact ⟨u, v, rfl, hu, by omega⟩
    · cases h
  · rintro ⟨u, v, hs, rfl, rfl⟩
    rw [if_pos (Nat.le_add_right _ _), dropOctets_eq_some.2 ⟨u, hs, rfl⟩, Nat.add_sub_cancel_left]
    exact takeOctets_eq_some.2 ⟨v, rfl, rfl⟩

theorem slice?_middle (u w v : List Char) :
    slice? (u ++ (w ++ v)) (byteLength u) (byteLength u + byteLength w) = some w :=
  slice?_eq_some.2 ⟨u, v, rfl, rfl, rfl⟩

theorem slice?_rest (u v : List Char) : slice? (u ++ v) (byteLength u) (byteLength (u ++ v)) = some v :=
  slice?_eq_some.2 ⟨u, [], by rw [List.append_nil], rfl, (byteLength_append u v).symm⟩

theorem slice?_front (u v : List Char) : slice? (u ++ v) 0 (byteLength u) = some u :=
  slice?_eq_some.2 ⟨[], v, rfl, rfl, Nat.zero_add _⟩

/-! ### Searches -/

theorem begins_iff : w.isPrefixOf s = true ↔ ∃ v, s = w ++ v := by
  rw [List.isPrefixOf_iff_prefix]
  exact exists_congr fun v => eq_comm

/-- Octets before the first character of a kind. -/
def find? (p : Char → Bool) (s : List Char) : Option Nat :=
  match s.dropWhile (fun c => !p c) with
  | [] => none
  | _ :: _ => some (byteLength (s.takeWhile fun c => !p c))

/-- Octets before the last character of a kind. -/
def findLast? (p : Char → Bool) (s : List Char) : Option Nat :=
  match s.reverse.dropWhile (fun c => !p c) with
  | [] => none
  | _ :: r => some (byteLength r.reverse)

variable {p : Char → Bool}

theorem find?_eq_none (hs : ∀ c ∈ s, p c = false) : find? p s = none := by
  have hnil : s.dropWhile (fun c => !p c) = [] := by
    rw [List.dropWhile_eq_nil_iff]
    intro c hc
    rw [hs c hc]
    rfl
  rw [find?, hnil]

theorem find?_eq_some (hu : ∀ c ∈ u, p c = false) (hc : p c = true) : find? p (u ++ c :: v) = some (byteLength u) := by
  have hneg : ∀ a ∈ u, (!p a) = true := fun a ha => by rw [hu a ha]; rfl
  have hstop : ¬ (fun c => !p c) c = true := by
    dsimp only
    rw [hc]
    decide
  rw [find?, List.dropWhile_append_of_pos hneg, List.dropWhile_cons_of_neg (p := fun c => !p c) hstop,
    List.takeWhile_append_of_pos hneg, List.takeWhile_cons_of_neg (p := fun c => !p c) hstop, List.append_nil]

theorem findLast?_eq_none (hs : ∀ c ∈ s, p c = false) : findLast? p s = none := by
  have hnil : s.reverse.dropWhile (fun c => !p c) = [] := by
    rw [List.dropWhile_eq_nil_iff]
    intro c hc
    rw [hs c (List.mem_reverse.1 hc)]
    rfl
  rw [findLast?, hnil]

theorem findLast?_eq_some (hc : p c = true) (hv : ∀ c ∈ v, p c = false) :
    findLast? p (u ++ c :: v) = some (byteLength u) := by
  have hneg : ∀ a ∈ v.reverse, (!p a) = true := fun a ha => by rw [hv a (List.mem_reverse.1 ha)]; rfl
  have hstop : ¬ (fun c => !p c) c = true := by
    dsimp only
    rw [hc]
    decide
  rw [findLast?, List.reverse_append, List.reverse_cons, List.append_assoc, List.dropWhile_append_of_pos hneg,
    List.singleton_append, List.dropWhile_cons_of_neg (p := fun c => !p c) hstop]
  dsimp only
  rw [List.reverse_reverse]

/-- The first character of a kind, if there is one. -/
theorem first_or_none (p : Char → Bool) (s : List Char) :
    (∀ c ∈ s, p c = false) ∨ ∃ u c v, s = u ++ c :: v ∧ (∀ a ∈ u, p a = false) ∧ p c = true := by
  induction s with
  | nil => exact .inl fun _ h => absurd h List.not_mem_nil
  | cons a s ih =>
    cases ha : p a with
    | true => exact .inr ⟨[], a, s, rfl, fun _ h => absurd h List.not_mem_nil, ha⟩
    | false =>
      rcases ih with hnone | ⟨u, c, v, rfl, hu, hc⟩
      · exact .inl (List.forall_mem_cons.2 ⟨ha, hnone⟩)
      · exact .inr ⟨a :: u, c, v, rfl, List.forall_mem_cons.2 ⟨ha, hu⟩, hc⟩

/-! ### Loops -/

/-- What a round of a loop comes to. -/
inductive Turn (σ α : Type) where
  | again (s : σ)
  | done (answer : α)

/-- The answer of a loop. Nothing if a round is refused a slice, or if that many rounds are not enough. -/
def rounds {σ α : Type} (round : σ → Option (Turn σ α)) : Nat → σ → Option α
  | 0, _ => none
  | n + 1, s =>
    match round s with
    | none => none
    | some (.done answer) => some answer
    | some (.again s') => rounds round n s'

/-- A loop answers if each of its rounds does or goes on nearer to the same answer. -/
theorem rounds_eq {σ α : Type} {round : σ → Option (Turn σ α)} (left : σ → Nat) {Answers : σ → α → Prop}
    (hround : ∀ s a, Answers s a → round s = some (.done a) ∨
      ∃ s', round s = some (.again s') ∧ Answers s' a ∧ left s' < left s)
    {s : σ} {a : α} (hs : Answers s a) {n : Nat} (hn : left s < n) : rounds round n s = some a := by
  induction n generalizing s with
  | zero => exact absurd hn (Nat.not_lt_zero _)
  | succ n ih =>
    rcases hround s a hs with hdone | ⟨s', hagain, hs', hless⟩
    · rw [rounds, hdone]
    · rw [rounds, hagain]
      exact ih hs' (by omega)

end SecureLayout.Text
