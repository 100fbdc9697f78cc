/-!
Octets read as UTF-8. What is no character, or only the beginning of one, becomes a replacement
character. Main statement: octets below 128 stand for themselves.
-/

namespace SecureLayout.Text

def replacement : Char := '\uFFFD'

/-- How a character of more than one octet begins: how many octets follow, what the first contributes, and
the least and greatest second octet. -/
def leading? (b : UInt8) : Option (Nat × Nat × UInt8 × UInt8) :=
  let n := b.toNat
  if 0xC2 ≤ n ∧ n ≤ 0xDF then some (1, n - 0xC0, 0x80, 0xBF)
  else if n = 0xE0 then some (2, 0, 0xA0, 0xBF)
  else if n = 0xED then some (2, 0xD, 0x80, 0x9F)
  else if 0xE1 ≤ n ∧ n ≤ 0xEF then some (2, n - 0xE0, 0x80, 0xBF)
  else if n = 0xF0 then some (3, 0, 0x90, 0xBF)
  else if 0xF1 ≤ n ∧ n ≤ 0xF3 then some (3, n - 0xF0, 0x80, 0xBF)
  else if n = 0xF4 then some (3, 4, 0x80, 0x8F)
  else none

/-- Reads octets from the left, with `more` octets of the character begun still to come: `code` is what
they have contributed, and the next must be at least `low` and at most `high`. -/
def decodeFrom : List UInt8 → (more code : Nat) → (low high : UInt8) → List Char
  | [], 0, _, _, _ => []
  | [], _ + 1, _, _, _ => [replacement]
  | b :: r, more, code, low, high =>
    let start : List Char :=
      if b < 0x80 then Char.ofNat b.toNat :: decodeFrom r 0 0 0 0
      else
        match leading? b with
        | some (more, code, low, high) => decodeFrom r more code low high
        | none => replacement :: decodeFrom r 0 0 0 0
    match more with
    | 0 => start
    | more + 1 =>
      if low ≤ b ∧ b ≤ high then
        let code := code * 64 + (b.toNat - 0x80)
        if more = 0 then Char.ofNat code :: decodeFrom r 0 0 0 0
        else decodeFrom r more code 0x80 0xBF
      else replacement :: start

def decodeOctets (bs : List UInt8) : List Char :=
  decodeFrom bs 0 0 0 0

theorem decodeOctets_ascii (bs : List UInt8) (h : ∀ b ∈ bs, b < 0x80) :
    decodeOctets bs = bs.map fun b => Char.ofNat b.toNat := by
  induction bs with
  | nil => rfl
  | cons b r ih =>
    have hb := h b (List.mem_cons_self ..)
    have hr := ih fun c hc => h c (List.mem_cons_of_mem _ hc)
    unfold decodeOctets at hr ⊢
    simp [decodeFrom, hb, hr]

end SecureLayout.Text
