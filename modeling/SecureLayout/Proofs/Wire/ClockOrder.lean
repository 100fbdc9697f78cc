import Mathlib.Data.Prod.Lex
import Mathlib.Data.String.Basic
import SecureLayout.Wire.Clock

/-!
Clocks are linearly ordered by their counters and then by the octets of their replica ids. Main
statements: `before` is that order, and texts compare as their UTF-8 octets do.
-/

namespace SecureLayout.Wire

/-! ### Texts and their octets -/

/-- Octets of a character in UTF-8. -/
def charOctets (c : Char) : List Nat :=
  (String.utf8EncodeChar c).map UInt8.toNat

/-- Octets of a text in UTF-8. -/
def octets (s : String) : List Nat :=
  s.toList.flatMap charOctets

theorem charOctets_eq (c : Char) :
    charOctets c =
      if c.toNat ≤ 0x7f then [c.toNat]
      else if c.toNat ≤ 0x7ff then [c.toNat / 64 + 0xc0, c.toNat % 64 + 0x80]
      else if c.toNat ≤ 0xffff then
        [c.toNat / 4096 + 0xe0, c.toNat / 64 % 64 + 0x80, c.toNat % 64 + 0x80]
      else
        [c.toNat / 262144 + 0xf0, c.toNat / 4096 % 64 + 0x80, c.toNat / 64 % 64 + 0x80,
          c.toNat % 64 + 0x80] := by
  have hv : c.val.toNat < 0x110000 := by
    have h := c.valid
    simp only [UInt32.isValidChar, Nat.isValidChar] at h
    omega
  have hc : c.toNat = c.val.toNat := rfl
  unfold charOctets String.utf8EncodeChar
  rw [hc]
  dsimp only
  split_ifs <;>
    simp only [List.map_cons, List.map_nil, UInt8.toNat_ofNat', List.cons.injEq, and_true] <;> omega

/-- A smaller character has smaller octets, whatever comes after either. -/
theorem charOctets_append_lt {c d : Char} (h : c < d) (x y : List Nat) :
    charOctets c ++ x < charOctets d ++ y := by
  have hn : c.toNat < d.toNat := h
  rw [charOctets_eq, charOctets_eq]
  split_ifs <;> simp only [List.cons_append, List.nil_append, List.cons_lt_cons_iff] <;> omega

theorem octets_lt_of_lt (a b : List Char) (h : a < b) :
    a.flatMap charOctets < b.flatMap charOctets := by
  induction a generalizing b with
  | nil =>
    cases b with
    | nil => exact absurd h (lt_irrefl _)
    | cons d b =>
      have hd : charOctets d ≠ [] := by
        simp [charOctets]
      obtain ⟨x, r, hx⟩ := List.exists_cons_of_ne_nil hd
      simp only [List.flatMap_nil, List.flatMap_cons, hx, List.cons_append]
      exact List.nil_lt_cons x _
  | cons c a ih =>
    cases b with
    | nil => exact absurd h (List.not_lt_nil _)
    | cons d b =>
      simp only [List.flatMap_cons]
      rcases List.cons_lt_cons_iff.1 h with hc | ⟨rfl, ht⟩
      · exact charOctets_append_lt hc _ _
      · exact List.append_left_lt (ih b ht)

/-- Texts are in the order of their octets. -/
theorem lt_iff_octets_lt (a b : String) : a < b ↔ octets a < octets b := by
  constructor
  · intro h
    exact octets_lt_of_lt _ _ (String.lt_iff_toList_lt.1 h)
  · intro h
    rcases lt_trichotomy a b with hab | rfl | hba
    · exact hab
    · exact absurd h (lt_irrefl _)
    · exact absurd (h.trans (octets_lt_of_lt _ _ (String.lt_iff_toList_lt.1 hba))) (lt_irrefl _)

namespace Clock

/-! ### The order of clocks -/

/-- The counter counts first, then the replica. -/
def key (c : Clock) : ℕ ×ₗ String :=
  toLex (c.counter, c.replica)

theorem key_injective : Function.Injective key := by
  rintro ⟨m, r⟩ ⟨n, s⟩ h
  have h : (m, r) = (n, s) := toLex.injective h
  simp_all

instance : LinearOrder Clock :=
  LinearOrder.lift' key key_injective

theorem lt_iff (a b : Clock) :
    a < b ↔ a.counter < b.counter ∨ a.counter = b.counter ∧ a.replica < b.replica :=
  Prod.Lex.toLex_lt_toLex

theorem before_iff_lt (a b : Clock) : a.before b = true ↔ a < b := by
  rw [lt_iff]
  simp [before]

theorem before_eq_false_iff (a b : Clock) : a.before b = false ↔ b ≤ a := by
  rw [← not_lt, ← before_iff_lt, Bool.not_eq_true]

theorem counter_le_of_le {a b : Clock} (h : a ≤ b) : a.counter ≤ b.counter := by
  by_contra hc
  exact absurd ((lt_iff b a).2 (.inl (by omega))) (not_lt.2 h)

/-- The greater counter is the later one; among equal counters the greater octets of the replica id. -/
def Later (a b : Clock) : Prop :=
  b.counter < a.counter ∨ b.counter = a.counter ∧ octets b.replica < octets a.replica

theorem later_iff_lt (a b : Clock) : a.Later b ↔ b < a := by
  rw [Later, lt_iff, lt_iff_octets_lt]

end Clock

end SecureLayout.Wire
