import Mathlib
import SecureLayout.Template.Lexer

/-!
Words inside a tag. Main statements: a word is read from its own characters and the one behind it, and
it never holds a closing delimiter or a bracket, but for a bracket that stands alone.
-/

namespace SecureLayout.Template

open Lexer (symbol? stringBody? number numberText digitsIn? float?)

/-- A word stands at the beginning of a text and takes `n` characters. -/
inductive WordAt : List Char → Token → Nat → Prop
  | symbol {s : List Char} {y : Symbol} {n : Nat} (h : symbol? s = some (y, n)) : WordAt s (.symbol y) n
  | string {q : Char} {r body rest : List Char} {x : String} (hq : q = '"' ∨ q = '\'')
      (hb : stringBody? q false r = some (body, rest)) (hx : unescaped? body = some x) :
      WordAt (q :: r) (.string x) (body.length + 2)
  | number {c : Char} {r : List Char} {t : Token} {n : Nat} (hc : c.isDigit = true)
      (hn : number (c :: r) = (.ok t, n)) : WordAt (c :: r) t n
  | name {c : Char} {r : List Char} (hc : Text.isNameStart c = true) :
      WordAt (c :: r) (.name (String.ofList ((c :: r).takeWhile Text.isNamePart)))
        ((c :: r).takeWhile Text.isNamePart).length

/-! ### What words begin with -/

/-- Characters that symbols begin with. -/
def symbolHeads : List Char :=
  ['+', '-', '*', '/', '%', '!', '.', ',', ':', '~', '|', '=', '>', '<', '(', ')', '[', ']', '\x7b', '\x7d']

theorem mem_symbolHeads {c : Char} {r : List Char} {y : Symbol} {n : Nat}
    (h : symbol? (c :: r) = some (y, n)) : c ∈ symbolHeads := by
  unfold symbol? at h
  split at h <;> first
    | (rename_i heq; cases heq; decide)
    | skip
  · rename_i heq
    cases heq
    split at h <;> first
      | decide
      | cases h
  · cases h

theorem symbol?_eq_none {c : Char} (r : List Char) (h : c ∉ symbolHeads) : symbol? (c :: r) = none := by
  cases hs : symbol? (c :: r) with
  | none => rfl
  | some p => exact absurd (mem_symbolHeads hs) h

theorem symbolHeads_quiet : ∀ c ∈ symbolHeads, Text.isNamePart c = false ∧ c ≠ '"' ∧ c ≠ '\'' := by
  exact List.all_iff_forall_prop.1 (by decide)

theorem isNamePart_of_isNameStart {c : Char} (h : Text.isNameStart c = true) :
    Text.isNamePart c = true := by
  simp only [Text.isNameStart, Text.isNamePart, Bool.or_eq_true, Char.isAlphanum] at h ⊢
  tauto

theorem isNamePart_of_isDigit {c : Char} (h : c.isDigit = true) : Text.isNamePart c = true := by
  simp only [Text.isNamePart, Char.isAlphanum, Bool.or_eq_true]
  tauto

theorem not_isNameStart_of_isDigit {c : Char} (h : c.isDigit = true) : Text.isNameStart c = false := by
  have hle := of_decide_eq_true (show decide (c.val ≥ 48 ∧ c.val ≤ 57) = true by
    simpa [Char.isDigit] using h)
  have hne : c ≠ '_' := by
    rintro rfl
    revert hle
    decide
  have h48 : 48 ≤ c.val.toNat := hle.1
  have h57 : c.val.toNat ≤ 57 := hle.2
  simp only [Text.isNameStart, Bool.or_eq_false_iff, beq_eq_false_iff_ne, ne_eq, hne, not_false_eq_true,
    and_true]
  simp only [Char.isAlpha, Char.isUpper, Char.isLower, Bool.or_eq_false_iff, Bool.and_eq_false_iff,
    decide_eq_false_iff_not, ge_iff_le, UInt32.not_le]
  constructor
  · rintro ⟨h65, -⟩
    have h65 : 65 ≤ c.val.toNat := h65
    omega
  · exact .inl (show c.val.toNat < 97 by omega)

/-- A symbol takes its first character, or that and one more of a few. -/
theorem symbol?_length {c : Char} {r : List Char} {y : Symbol} {n : Nat}
    (h : symbol? (c :: r) = some (y, n)) :
    n = 1 ∨ n = 2 ∧ c ∈ ['/', '*', '=', '!', '>', '<'] ∧ ∃ c' r', r = c' :: r' ∧ c' ∈ ['/', '*', '='] := by
  unfold symbol? at h
  split at h <;> first
    | (rename_i heq; cases heq; cases h; exact .inr ⟨rfl, by decide, _, _, rfl, by decide⟩)
    | skip
  · rename_i heq
    cases heq
    left
    split at h <;> first
      | (cases h; rfl)
      | cases h
  · cases h

/-- A symbol is told from two characters. -/
theorem symbol?_local {c c' : Char} (r r' : List Char) :
    symbol? (c :: c' :: r) = symbol? (c :: c' :: r') := by
  by_cases hs : c ∈ symbolHeads
  · by_cases hc : c' ∈ ['/', '*', '=']
    · revert hs hc
      simp only [symbolHeads, List.mem_cons, List.not_mem_nil, or_false]
      rintro (rfl | rfl | rfl | rfl | rfl | rfl | rfl | rfl | rfl | rfl | rfl | rfl | rfl | rfl | rfl |
        rfl | rfl | rfl | rfl | rfl) (rfl | rfl | rfl) <;> rfl
    · simp only [List.mem_cons, List.not_mem_nil, or_false, not_or] at hc
      unfold symbol?
      split <;> rename_i heq <;> split <;> rename_i heq' <;> simp_all
  · rw [symbol?_eq_none _ hs, symbol?_eq_none _ hs]

/-! ### Words are what the lexer reads -/

theorem word_eq_ok_iff {l : Lexer} {t : Token} {n : Nat} :
    l.word = (.ok t, n) ↔ WordAt l.rest t n := by
  constructor
  · intro h
    unfold Lexer.word at h
    split at h
    · next y k hs =>
      cases h
      exact .symbol hs
    · next hs =>
      split at h
      · cases h
      · next c r hr =>
        rw [hr]
        rw [hr] at h
        split_ifs at h with hq hd hn
        · split at h
          · cases h
          · next body rest hb =>
            split at h
            · next x hx =>
              cases h
              exact .string (by simpa using hq) hb hx
            · cases h
        · dsimp only at h
          split at h
          · next t' ht =>
            cases h
            exact .number hd (Prod.ext ht rfl)
          · cases h
        · cases h
          exact .name hn
        · cases h
  · intro h
    unfold Lexer.word
    generalize l.rest = s at h
    cases h with
    | symbol hs => rw [hs]
    | string hq hb hx =>
      rename_i q r body rest x
      have hs : symbol? (q :: r) = none :=
        symbol?_eq_none r fun hm => by
          have := symbolHeads_quiet q hm
          tauto
      rw [hs]
      have hquote : (decide (q = '"') || decide (q = '\'')) = true := by simpa using hq
      simp only [hquote, if_true, hb, hx]
    | number hc hn =>
      rename_i c r
      have hp := isNamePart_of_isDigit hc
      have hs : symbol? (c :: r) = none :=
        symbol?_eq_none r fun hm => by rw [(symbolHeads_quiet c hm).1] at hp; cases hp
      have hquote : (decide (c = '"') || decide (c = '\'')) = false := by
        simp only [Bool.or_eq_false_iff, decide_eq_false_iff_not]
        constructor <;> rintro rfl <;> revert hc <;> decide
      rw [hs]
      simp only [hquote, hc, if_true, hn, Bool.false_eq_true, if_false]
    | name hc =>
      rename_i c r
      have hp := isNamePart_of_isNameStart hc
      have hs : symbol? (c :: r) = none :=
        symbol?_eq_none r fun hm => by rw [(symbolHeads_quiet c hm).1] at hp; cases hp
      have hquote : (decide (c = '"') || decide (c = '\'')) = false := by
        simp only [Bool.or_eq_false_iff, decide_eq_false_iff_not]
        constructor <;> rintro rfl <;> revert hc <;> decide
      have hd : c.isDigit = false := by
        cases hd : c.isDigit with
        | false => rfl
        | true => rw [not_isNameStart_of_isDigit hd] at hc; cases hc
      rw [hs]
      simp only [hquote, hd, hc, if_true, Bool.false_eq_true, if_false]

/-! ### A word is read from its own characters and the one behind it -/

theorem stringBody?_eq_some {q : Char} {e : Bool} {r body rest : List Char}
    (h : stringBody? q e r = some (body, rest)) : r = body ++ q :: rest := by
  induction r generalizing e body with
  | nil => cases e <;> cases h
  | cons c r ih =>
    cases e with
    | true =>
      simp only [stringBody?, Option.map_eq_some_iff, Prod.exists, Prod.mk.injEq] at h
      obtain ⟨b, r', hb, rfl, rfl⟩ := h
      rw [ih hb]
      rfl
    | false =>
      simp only [stringBody?] at h
      split_ifs at h with hc hq
      · simp only [Option.map_eq_some_iff, Prod.exists, Prod.mk.injEq] at h
        obtain ⟨b, r', hb, rfl, rfl⟩ := h
        rw [ih hb]
        rfl
      · cases h
        rw [hq]
        rfl
      · simp only [Option.map_eq_some_iff, Prod.exists, Prod.mk.injEq] at h
        obtain ⟨b, r', hb, rfl, rfl⟩ := h
        rw [ih hb]
        rfl

theorem stringBody?_append {q : Char} {e : Bool} {r body rest : List Char}
    (h : stringBody? q e r = some (body, rest)) (rest' : List Char) :
    stringBody? q e (body ++ q :: rest') = some (body, rest') := by
  induction r generalizing e body with
  | nil => cases e <;> cases h
  | cons c r ih =>
    cases e with
    | true =>
      simp only [stringBody?, Option.map_eq_some_iff, Prod.exists, Prod.mk.injEq] at h
      obtain ⟨b, r', hb, rfl, rfl⟩ := h
      simp [stringBody?, ih hb]
    | false =>
      simp only [stringBody?] at h
      split_ifs at h with hc hq
      · simp only [Option.map_eq_some_iff, Prod.exists, Prod.mk.injEq] at h
        obtain ⟨b, r', hb, rfl, rfl⟩ := h
        simp [stringBody?, hc, ih hb]
      · cases h
        simp [stringBody?, ← hq, hc]
      · simp only [Option.map_eq_some_iff, Prod.exists, Prod.mk.injEq] at h
        obtain ⟨b, r', hb, rfl, rfl⟩ := h
        simp [stringBody?, hc, hq, ih hb]

/-- A string literal is its quotes and what stands between them. -/
theorem stringBody?_split {q : Char} {e : Bool} {r body rest : List Char}
    (h : stringBody? q e r = some (body, rest)) :
    (q :: r).take (body.length + 2) = q :: (body ++ [q]) ∧ (q :: r).drop (body.length + 2) = rest := by
  rw [stringBody?_eq_some h, List.take_succ_cons, List.drop_succ_cons, List.take_length_add_append,
    List.drop_length_add_append]
  exact ⟨rfl, rfl⟩

theorem takeWhile_local (p : Char → Bool) {v y : List Char} (y' : List Char)
    (h : ((v ++ y).takeWhile p).length < v.length) :
    (v ++ y').takeWhile p = (v ++ y).takeWhile p := by
  induction v with
  | nil => cases h
  | cons c v ih =>
    simp only [List.cons_append, List.takeWhile_cons] at h ⊢
    cases hc : p c with
    | false => rfl
    | true =>
      simp only [hc, if_true, List.length_cons] at h ⊢
      rw [ih (by omega)]

theorem numberText_local {p : Lexer.NumberPart} {v y : List Char} (y' : List Char)
    (h : (numberText p (v ++ y)).1.length < v.length) :
    numberText p (v ++ y') = numberText p (v ++ y) := by
  induction v generalizing p with
  | nil => cases h
  | cons c v ih =>
    simp only [List.cons_append, numberText] at h ⊢
    cases hc : p.next? c with
    | none => rfl
    | some p' =>
      simp only [hc, List.length_cons] at h ⊢
      rw [ih (by omega)]

theorem numberHead_local {c c' : Char} (r r' : List Char) :
    Lexer.numberHead (c :: c' :: r) = Lexer.numberHead (c :: c' :: r') := by
  by_cases hc : c = '0'
  · subst hc
    rfl
  · unfold Lexer.numberHead
    split
    · next heq =>
      cases heq
      exact absurd rfl hc
    · split
      · next heq =>
        cases heq
        exact absurd rfl hc
      · rfl

theorem number_eq_iff {s : List Char} {t : Except String Token} {n : Nat} :
    number s = (t, n) ↔ ∃ base part skip cs last, Lexer.numberHead s = (base, part, skip) ∧
      numberText part (s.drop skip) = (cs, last) ∧ Lexer.numberToken base cs last = t ∧
      skip + cs.length = n := by
  unfold number
  rcases hh : Lexer.numberHead s with ⟨base, part, skip⟩
  dsimp only
  rcases ht : numberText part (s.drop skip) with ⟨cs, last⟩
  constructor
  · intro h
    cases h
    exact ⟨base, part, skip, cs, last, rfl, ht, rfl, rfl⟩
  · rintro ⟨_, _, _, _, _, he, ht', rfl, rfl⟩
    cases he
    cases ht.symm.trans ht'
    rfl

/-- The token of a number is an integer or a fraction. -/
theorem number_token {s : List Char} {t : Token} {n : Nat} (h : number s = (.ok t, n)) :
    (∃ k, t = .int k) ∨ ∃ x, t = .float x := by
  obtain ⟨base, part, skip, cs, last, -, -, htok, -⟩ := number_eq_iff.1 h
  unfold Lexer.numberToken Lexer.integer at htok
  dsimp only at htok
  repeat' split at htok
  all_goals cases htok
  · exact .inl ⟨_, rfl⟩
  · exact .inl ⟨_, rfl⟩
  · exact .inr ⟨_, rfl⟩

theorem takeWhile_split (p : Char → Bool) (s : List Char) :
    s.take (s.takeWhile p).length = s.takeWhile p ∧ s.drop (s.takeWhile p).length = s.dropWhile p := by
  have htake := (List.prefix_iff_eq_take.1 (List.takeWhile_prefix p (l := s))).symm
  refine ⟨htake, ?_⟩
  have hsplit := List.takeWhile_append_dropWhile (p := p) (l := s)
  conv_rhs at hsplit => rw [← List.take_append_drop (s.takeWhile p).length s, htake]
  exact (List.append_cancel_left hsplit).symm

theorem number_local {v y : List Char} {t : Except String Token} {n : Nat} (y' : List Char)
    (h : number (v ++ y) = (t, n)) (hn : n < v.length) (hpos : 0 < n) :
    number (v ++ y') = (t, n) := by
  obtain ⟨c, c', w, rfl⟩ : ∃ c c' w, v = c :: c' :: w := by
    match v, hn with
    | [], hn => cases hn
    | [_], hn =>
      rw [List.length_singleton] at hn
      omega
    | c :: c' :: w, _ => exact ⟨c, c', w, rfl⟩
  obtain ⟨base, part, skip, cs, last, hh, ht, htok, hlen⟩ := number_eq_iff.1 h
  refine number_eq_iff.2 ⟨base, part, skip, cs, last, (numberHead_local _ _).trans hh, ?_, htok, hlen⟩
  have hdrop : ∀ z : List Char, (c :: c' :: w ++ z).drop skip = (c :: c' :: w).drop skip ++ z :=
    fun z => List.drop_append_of_le_length (by omega)
  rw [hdrop] at ht ⊢
  rw [numberText_local y' (by rw [ht, List.length_drop]; dsimp only; omega)]
  exact ht

/-- A word is the same whatever comes after the character behind it. -/
theorem WordAt.local {v y : List Char} {t : Token} {n : Nat} (h : WordAt (v ++ y) t n)
    (hn : n < v.length) (hpos : 0 < n) (y' : List Char) : WordAt (v ++ y') t n := by
  cases v with
  | nil => cases hn
  | cons c v =>
    simp only [List.cons_append] at h ⊢
    generalize hs : c :: (v ++ y) = s at h
    cases h with
    | symbol hy =>
      subst hs
      cases v with
      | nil => rcases symbol?_length hy with rfl | ⟨rfl, -⟩ <;> simp at hn
      | cons c' v => exact .symbol ((symbol?_local _ _).trans hy)
    | @string q r body rest x hq hb hx =>
      cases hs
      have hlen : body.length + 1 ≤ v.length := by
        rw [List.length_cons] at hn
        omega
      have hv : v = body ++ c :: v.drop (body.length + 1) := by
        have htake := congrArg (List.take (body.length + 1)) (stringBody?_eq_some hb)
        rw [List.take_append_of_le_length hlen, List.take_length_add_append] at htake
        conv_lhs => rw [← List.take_append_drop (body.length + 1) v, htake]
        simp
      have hrest := stringBody?_append hb (v.drop (body.length + 1) ++ y')
      have hv' : v ++ y' = body ++ c :: (v.drop (body.length + 1) ++ y') := by
        conv_lhs => rw [hv]
        simp
      rw [hv']
      exact .string hq hrest hx
    | number hc hnum =>
      cases hs
      exact .number hc (number_local (v := c :: v) y' hnum hn hpos)
    | name hc =>
      cases hs
      have hlocal := takeWhile_local Text.isNamePart (v := c :: v) y' hn
      rw [List.cons_append, List.cons_append] at hlocal
      rw [← hlocal]
      exact .name hc

/-! ### Numbers -/

theorem numberText_cons (p : Lexer.NumberPart) (c : Char) (s : List Char) :
    numberText p (c :: s) = match p.next? c with
      | none => ([], p)
      | some p' => (c :: (numberText p' s).1, (numberText p' s).2) := rfl

theorem numberText_eq {p : Lexer.NumberPart} {s cs : List Char} {last : Lexer.NumberPart}
    (h : numberText p s = (cs, last)) : s = cs ++ s.drop cs.length := by
  induction s generalizing p cs with
  | nil =>
    cases h
    rfl
  | cons c s ih =>
    rw [numberText_cons] at h
    split at h
    · cases h
      rfl
    · next p' hp =>
      cases h
      exact congrArg (c :: ·) (ih rfl)

theorem isNamePart_of_hexDigit {c : Char} (h : (hexDigit? c).isSome = true) :
    Text.isNamePart c = true := by
  unfold hexDigit? at h
  simp only [Text.isNamePart, Char.isAlphanum, Char.isAlpha, Char.isUpper, Char.isLower,
    Bool.or_eq_true, Bool.and_eq_true, decide_eq_true_eq]
  split_ifs at h with h1 h2 h3
  · exact .inl (.inr h1)
  · simp only [Bool.and_eq_true, decide_eq_true_eq] at h2
    refine .inl (.inl (.inr ⟨h2.1, ?_⟩))
    have h102 : c.val.toNat ≤ 102 := h2.2
    exact show c.val.toNat ≤ 122 by omega
  · simp only [Bool.and_eq_true, decide_eq_true_eq] at h3
    refine .inl (.inl (.inl ⟨h3.1, ?_⟩))
    have h70 : c.val.toNat ≤ 70 := h3.2
    exact show c.val.toNat ≤ 90 by omega
  · cases h

/-- Characters that a number goes on with. -/
theorem next?_eq_some {p p' : Lexer.NumberPart} {c : Char} (h : p.next? c = some p') :
    Text.isNamePart c = true ∨ c ∈ ['.', '+', '-'] := by
  unfold Lexer.NumberPart.next? at h
  split at h <;> first
    | exact .inl (by decide)
    | exact .inr (by decide)
    | skip
  · split_ifs at h with hd
    exact .inl (isNamePart_of_isDigit hd)
  · split_ifs at h with hd
    simp only [Bool.or_eq_true, Bool.and_eq_true] at hd
    rcases hd with hd | ⟨-, hd⟩
    · exact .inl (isNamePart_of_isDigit hd)
    · exact .inl (isNamePart_of_hexDigit hd)
  · split_ifs at h with hd
    exact .inl (isNamePart_of_isDigit hd)

theorem numberText_chars {p : Lexer.NumberPart} {s cs : List Char} {last : Lexer.NumberPart}
    (h : numberText p s = (cs, last)) : ∀ c ∈ cs, Text.isNamePart c = true ∨ c ∈ ['.', '+', '-'] := by
  induction s generalizing p cs with
  | nil =>
    cases h
    exact fun _ hc => absurd hc List.not_mem_nil
  | cons c s ih =>
    rw [numberText_cons] at h
    split at h
    · cases h
      exact fun _ hc => absurd hc List.not_mem_nil
    · next p' hp =>
      cases h
      intro a ha
      rcases List.mem_cons.1 ha with rfl | ha
      · exact next?_eq_some hp
      · exact ih rfl a ha

/-- A number whose last character is a sign breaks off in its exponent. -/
theorem numberText_sign {p last : Lexer.NumberPart} {s w : List Char} {c : Char}
    (hc : c = '+' ∨ c = '-') (h : numberText p s = (w ++ [c], last)) : last = .exponentDigits := by
  induction s generalizing p w with
  | nil => cases w <;> cases h
  | cons a s ih =>
    rw [numberText_cons] at h
    split at h
    · cases w <;> cases h
    · next p' hp =>
      cases w with
      | nil =>
        simp only [List.nil_append, Prod.mk.injEq, List.cons.injEq] at h
        obtain ⟨⟨rfl, hnil⟩, rfl⟩ := h
        have hlast : (numberText p' s).2 = p' := by
          cases s with
          | nil => rfl
          | cons b s =>
            rw [numberText_cons] at hnil ⊢
            split at hnil
            · rfl
            · cases hnil
        rw [hlast]
        rcases hc with rfl | rfl <;> cases p <;> first
          | (cases hp; rfl)
          | (simp [Lexer.NumberPart.next?, show hexDigit? '+' = none by decide,
              show hexDigit? '-' = none by decide] at hp)
      | cons b w =>
        simp only [List.cons_append, Prod.mk.injEq, List.cons.injEq] at h
        obtain ⟨⟨-, hw⟩, hl⟩ := h
        exact ih (Prod.ext hw hl)

theorem digitsIn?_sign {c : Char} (hc : c = '+' ∨ c = '-') (b : Nat) (w : List Char) :
    digitsIn? b (w ++ [c]) = none := by
  have hhex : hexDigit? c = none := by rcases hc with rfl | rfl <;> decide
  unfold Lexer.digitsIn?
  rw [if_neg (by simp), List.foldlM_append]
  cases w.foldlM (m := Option) _ 0 with
  | none => rfl
  | some n => simp [hhex]

theorem exponent?_sign {c : Char} (hc : c = '+' ∨ c = '-') (w : List Char) :
    Lexer.exponent? (w ++ [c]) = none := by
  have hdigits : ∀ w : List Char, digitsIn? 10 (w ++ [c]) = none := digitsIn?_sign hc 10
  have hnone : digitsIn? 10 [] = none := rfl
  cases w with
  | nil => rcases hc with rfl | rfl <;> rfl
  | cons e w =>
    unfold Lexer.exponent?
    simp only [List.cons_append]
    split_ifs with he
    · split
      · next r hr =>
        cases w with
        | nil =>
          rw [← (List.cons.inj hr).2, hnone]
          rfl
        | cons a w =>
          have hr : a :: (w ++ [c]) = _ :: r := hr
          rw [← (List.cons.inj hr).2, hdigits]
          rfl
      · next r hr =>
        cases w with
        | nil =>
          rw [← (List.cons.inj hr).2, hnone]
          rfl
        | cons a w =>
          have hr : a :: (w ++ [c]) = _ :: r := hr
          rw [← (List.cons.inj hr).2, hdigits]
          rfl
      · rw [hdigits]
        rfl
    · rfl

theorem dropWhile_sign {c : Char} (hc : c = '+' ∨ c = '-') (w : List Char) :
    ∃ w', (w ++ [c]).dropWhile Char.isDigit = w' ++ [c] := by
  have hd : c.isDigit = false := by rcases hc with rfl | rfl <;> decide
  rw [List.dropWhile_append]
  split
  · exact ⟨[], by simp [hd]⟩
  · exact ⟨_, rfl⟩

theorem float?_sign {c : Char} (hc : c = '+' ∨ c = '-') (w : List Char) :
    float? (w ++ [c]) = none := by
  obtain ⟨w', hw'⟩ := dropWhile_sign hc w
  have hfraction : ∃ v, (Lexer.fraction (w' ++ [c])).2 = v ++ [c] := by
    unfold Lexer.fraction
    split
    · next r hr =>
      cases w' with
      | nil => rcases hc with rfl | rfl <;> cases hr
      | cons a w' =>
        cases hr
        exact dropWhile_sign hc w'
    · exact ⟨w', rfl⟩
  obtain ⟨v, hv⟩ := hfraction
  unfold Lexer.float?
  rw [hw']
  dsimp only
  rw [hv, exponent?_sign hc]

theorem numberHead_skip (s : List Char) :
    (Lexer.numberHead s).2.2 = 0 ∨
      (Lexer.numberHead s).2.2 = 2 ∧ ∃ c r, s = '0' :: c :: r ∧ c ∈ ['b', 'B', 'o', 'O', 'x', 'X'] := by
  unfold Lexer.numberHead
  split
  · next c r =>
    split_ifs with hb ho hx
    · exact .inr ⟨rfl, c, r, rfl, by
        rcases (by simpa using hb : c = 'b' ∨ c = 'B') with rfl | rfl <;> decide⟩
    · exact .inr ⟨rfl, c, r, rfl, by
        rcases (by simpa using ho : c = 'o' ∨ c = 'O') with rfl | rfl <;> decide⟩
    · exact .inr ⟨rfl, c, r, rfl, by
        rcases (by simpa using hx : c = 'x' ∨ c = 'X') with rfl | rfl <;> decide⟩
    · exact .inl rfl
  · exact .inl rfl

/-- A number that is a token does not end with a sign. -/
theorem number_sign {s w : List Char} {a : Char} {t : Token} {n : Nat}
    (ha : a = '+' ∨ a = '-') (h : number s = (.ok t, n)) : s.take n ≠ w ++ [a] := by
  intro hw
  obtain ⟨base, part, skip, cs, last, hh, ht, htok, rfl⟩ := number_eq_iff.1 h
  rw [List.take_add] at hw
  have hcs : (s.drop skip).take cs.length = cs := by
    conv_lhs => rw [numberText_eq ht]
    simp
  rw [hcs] at hw
  rcases List.eq_nil_or_concat cs with rfl | ⟨v, b, rfl⟩
  · have hskip := numberHead_skip s
    rw [hh] at hskip
    rcases hskip with hskip | ⟨hskip, c, r, rfl, hc⟩
    · dsimp only at hskip
      rw [hskip] at hw
      cases w <;> cases hw
    · dsimp only at hskip
      rw [hskip] at hw
      have hlast := congrArg List.getLast? hw
      simp only [List.append_nil, List.take_succ_cons, List.take_zero, List.getLast?_concat,
        List.getLast?_cons_cons, List.getLast?_singleton, Option.some.injEq] at hlast
      subst hlast
      revert hc
      rcases ha with rfl | rfl <;> decide
  · have hlast := congrArg List.getLast? hw
    rw [List.concat_eq_append, ← List.append_assoc, List.getLast?_concat, List.getLast?_concat] at hlast
    cases hlast
    rw [List.concat_eq_append] at ht htok
    have hpart := numberText_sign ha ht
    subst hpart
    have hkeep : [a].filter (· != '_') = [a] := by rcases ha with rfl | rfl <;> rfl
    unfold Lexer.numberToken at htok
    rw [List.getLast?_concat, List.filter_append, hkeep,
      if_neg (by rcases ha with rfl | rfl <;> decide)] at htok
    dsimp only at htok
    rw [float?_sign ha] at htok
    cases htok

/-! ### How far a word goes -/

theorem number_pos {c : Char} {r : List Char} {t : Except String Token} {n : Nat}
    (hc : c.isDigit = true) (h : number (c :: r) = (t, n)) : 0 < n := by
  obtain ⟨base, part, skip, cs, last, hh, ht, -, rfl⟩ := number_eq_iff.1 h
  have hskip := numberHead_skip (c :: r)
  rw [hh] at hskip
  rcases hskip with hskip | ⟨hskip, -⟩ <;> dsimp only at hskip <;> subst hskip
  · have hpart : part = .whole := by
      unfold Lexer.numberHead at hh
      split at hh
      · split_ifs at hh <;> simp_all
      · simp_all
    subst hpart
    have hne : c ≠ '_' ∧ c ≠ '.' ∧ c ≠ 'e' ∧ c ≠ 'E' := by
      refine ⟨?_, ?_, ?_, ?_⟩ <;> rintro rfl <;> revert hc <;> decide
    have hnext : Lexer.NumberPart.whole.next? c = some .whole := by
      unfold Lexer.NumberPart.next?
      split <;> simp_all
    rw [List.drop_zero, numberText_cons, hnext] at ht
    cases ht
    simp
  · omega

theorem WordAt.pos {s : List Char} {t : Token} {n : Nat} (h : WordAt s t n) : 0 < n := by
  cases h with
  | symbol h =>
    cases s with
    | nil => cases h
    | cons c s => rcases symbol?_length h with rfl | ⟨rfl, -⟩ <;> omega
  | string => omega
  | number hc h => exact number_pos hc h
  | name hc =>
    rw [List.takeWhile_cons_of_pos (isNamePart_of_isNameStart hc), List.length_cons]
    omega

theorem WordAt.unique {s : List Char} {t t' : Token} {n n' : Nat} (h : WordAt s t n)
    (h' : WordAt s t' n') : t = t' ∧ n = n' := by
  have e := word_eq_ok_iff (l := { rest := s }) |>.2 h
  have e' := word_eq_ok_iff (l := { rest := s }) |>.2 h'
  cases e.symm.trans e'
  exact ⟨rfl, rfl⟩

theorem isBlank_of_isTokenBlank {c : Char} (h : Text.isTokenBlank c = true) : Text.isBlank c = true := by
  have hc : c = ' ' ∨ c = '\t' ∨ c = '\n' ∨ c = '\r' ∨ c = '\x0c' := by
    simpa [Text.isTokenBlank, or_assoc] using h
  rcases hc with rfl | rfl | rfl | rfl | rfl <;> decide

theorem not_isBlank_of_isNamePart {c : Char} (h : Text.isNamePart c = true) : Text.isBlank c = false := by
  have hrange : c.toNat = 95 ∨ 48 ≤ c.toNat ∧ c.toNat ≤ 57 ∨ 65 ≤ c.toNat ∧ c.toNat ≤ 90 ∨
      97 ≤ c.toNat ∧ c.toNat ≤ 122 := by
    simp only [Text.isNamePart, Char.isAlphanum, Char.isAlpha, Char.isUpper, Char.isLower, Char.isDigit,
      Bool.or_eq_true, Bool.and_eq_true, decide_eq_true_eq, beq_iff_eq] at h
    rcases h with ((h | h) | h) | h
    · exact .inr (.inr (.inl h))
    · exact .inr (.inr (.inr h))
    · exact .inr (.inl h)
    · exact .inl (by rw [h]; rfl)
  simp only [Text.isBlank, Bool.or_eq_false_iff, Bool.and_eq_false_iff, decide_eq_false_iff_not,
    beq_eq_false_iff_ne]
  omega

/-- A word begins with neither a blank nor the end. -/
theorem WordAt.head {s : List Char} {t : Token} {n : Nat} (h : WordAt s t n) :
    ∃ c r, s = c :: r ∧ Text.isBlank c = false := by
  cases h with
  | @symbol s y n h =>
    cases s with
    | nil => cases h
    | cons c s =>
      refine ⟨c, s, rfl, ?_⟩
      have hblank : ∀ c ∈ symbolHeads, Text.isBlank c = false := List.all_iff_forall_prop.1 (by decide)
      exact hblank c (mem_symbolHeads h)
  | @string q r body rest x hq => exact ⟨q, r, rfl, by rcases hq with rfl | rfl <;> decide⟩
  | @number c r t n hc => exact ⟨c, r, rfl, not_isBlank_of_isNamePart (isNamePart_of_isDigit hc)⟩
  | @name c r hc => exact ⟨c, r, rfl, not_isBlank_of_isNamePart (isNamePart_of_isNameStart hc)⟩

end SecureLayout.Template
