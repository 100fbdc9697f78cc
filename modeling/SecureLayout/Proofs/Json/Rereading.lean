import SecureLayout.Json.Tagged
import SecureLayout.Proofs.Json.Rendering

/-!
Written text is read back. `Takes` says that a reader takes exactly a given text off what is left and what
it gives for it, wherever the cursor stands. Main statement: a tree of integers is read back from its text
if it has no more levels than there is room for.
-/

namespace SecureLayout.Json

open SecureLayout.Numeric

namespace Reader

variable {α β : Type} {r : Reader α} {f : α → Reader β} {s t rest : List Char} {a : α} {b : β}

/-- In front of `rest`, wherever that is, the reader takes `s` and gives `a`. -/
def Takes (r : Reader α) (s rest : List Char) (a : α) : Prop :=
  ∀ p, ∃ q, r ⟨s ++ rest, p⟩ = .ok (a, ⟨rest, q⟩)

theorem takes_pure (a : α) (rest : List Char) : Takes (pure a : Reader α) [] rest a :=
  fun p => ⟨p, rfl⟩

theorem Takes.bind (hr : Takes r s (t ++ rest) a) (hf : Takes (f a) t rest b) :
    Takes (r >>= f) (s ++ t) rest b := by
  intro p
  obtain ⟨q, hq⟩ := hr p
  obtain ⟨q', hq'⟩ := hf q
  refine ⟨q', ?_⟩
  rw [List.append_assoc]
  simp only [Bind.bind, StateT.bind, hq, Except.bind]
  exact hq'

/-- The last step of a reader may only name what it gives. -/
theorem Takes.map {g : α → β} (hr : Takes r s rest a) :
    Takes (r >>= fun a => pure (g a)) s rest (g a) := by
  have h : Takes (r >>= fun a => pure (g a)) (s ++ []) rest (g a) :=
    Takes.bind hr (takes_pure (g a) rest)
  rwa [List.append_nil] at h

/-- Looking at the next character takes nothing. -/
theorem Takes.peek {f : Option Char → Reader β} (hf : Takes (f (s ++ rest).head?) s rest b) :
    Takes (Reader.peek >>= f) s rest b :=
  hf

theorem takes_next (hs : ∀ c ∈ rest.head?, isSpace c = false) : Takes next [] rest rest.head? := by
  intro p
  cases rest with
  | nil => exact ⟨p.steps [], rfl⟩
  | cons c u =>
    have hc : isSpace c = false := hs c rfl
    exact ⟨p.steps [], by simp [next, hc, Cursor.advance]⟩

theorem Takes.next {f : Option Char → Reader β} (hs : ∀ c ∈ (s ++ rest).head?, isSpace c = false)
    (hf : Takes (f (s ++ rest).head?) s rest b) : Takes (Reader.next >>= f) s rest b := by
  rw [← List.nil_append s]
  exact (takes_next hs).bind hf

theorem takes_skip (c : Char) (rest : List Char) : Takes skip [c] rest () :=
  fun p => ⟨p.steps [c], rfl⟩

theorem Takes.skip {f : Unit → Reader β} {c : Char} (hf : Takes (f ()) s rest b) :
    Takes (Reader.skip >>= f) (c :: s) rest b :=
  (takes_skip c (s ++ rest)).bind hf

theorem takes_word (w rest : List Char) : Takes (word w) w rest () := by
  induction w with
  | nil => exact takes_pure () rest
  | cons c w ih =>
    refine Takes.peek ?_
    rw [List.cons_append, List.head?_cons]
    simp only [if_true]
    exact ih.skip

/-! ### Strings -/

theorem hex4?_control : ∀ n < 32,
    hex4? '0' '0' (Nat.digitChar (n / 16)) (Nat.digitChar (n % 16)) = some n := by
  decide

theorem textBody_plain {c : Char} (hquote : c ≠ '"') (hslash : c ≠ '\\') (hc : ¬ c.toNat < 0x20)
    (acc : List Char) (p : Position) (u : List Char) :
    textBody acc p (c :: u) = textBody (c :: acc) (p.step c) u := by
  rw [textBody, if_neg hc]
  · exact hquote
  · intro a b d e r h
    exact absurd h hslash
  · intro h
    exact absurd h hslash

theorem textBody_shortEscape {e c : Char} (he : e ≠ 'u') (h : shortEscape e = some c)
    (acc : List Char) (p : Position) (u : List Char) :
    textBody acc p ('\\' :: e :: u) = textBody (c :: acc) ((p.step '\\').step e) u := by
  rw [textBody]
  · simp [h]
  · exact he
  · intro a b d e' r hu
    exact absurd (List.cons.inj hu).1 he

theorem textBody_hex4 {a b c d : Char} {n : Nat} (h : hex4? a b c d = some n) (hn : n < 0xD800)
    (acc : List Char) (p : Position) (u : List Char) :
    textBody acc p ('\\' :: 'u' :: a :: b :: c :: d :: u) =
      textBody (Char.ofNat n :: acc) (((p.step '\\').step 'u').steps [a, b, c, d]) u := by
  rw [textBody, h]
  have hlow : ¬ (0xDC00 ≤ n ∧ n ≤ 0xDFFF) := by omega
  simp [hn, hlow]

theorem textBody_escapeChar (c : Char) (acc : List Char) (p : Position) (u : List Char) :
    ∃ q, textBody acc p (escapeChar c ++ u) = textBody (c :: acc) q u := by
  unfold escapeChar
  split
  · exact ⟨_, textBody_shortEscape (by decide) rfl acc p u⟩
  · exact ⟨_, textBody_shortEscape (by decide) rfl acc p u⟩
  · exact ⟨_, textBody_shortEscape (by decide) rfl acc p u⟩
  · exact ⟨_, textBody_shortEscape (by decide) rfl acc p u⟩
  · exact ⟨_, textBody_shortEscape (by decide) rfl acc p u⟩
  · exact ⟨_, textBody_shortEscape (by decide) rfl acc p u⟩
  · exact ⟨_, textBody_shortEscape (by decide) rfl acc p u⟩
  · next hquote hslash _ _ _ _ _ =>
    split
    · next hc =>
      have hread := textBody_hex4 (hex4?_control _ hc) (by omega) acc p u
      rw [Char.ofNat_toNat] at hread
      exact ⟨_, hread⟩
    · next hc => exact ⟨_, textBody_plain hquote hslash hc acc p u⟩

theorem textBody_escaped (w : List Char) (acc : List Char) (p : Position) (rest : List Char) :
    ∃ q, textBody acc p (w.flatMap escapeChar ++ '"' :: rest) = .ok (acc.reverse ++ w, ⟨rest, q⟩) := by
  induction w generalizing acc p with
  | nil => exact ⟨p.step '"', by simp [textBody]⟩
  | cons c w ih =>
    obtain ⟨q, hq⟩ := textBody_escapeChar c acc p (w.flatMap escapeChar ++ '"' :: rest)
    obtain ⟨q', hq'⟩ := ih (c :: acc) q
    refine ⟨q', ?_⟩
    rw [List.flatMap_cons, List.append_assoc, hq, hq']
    simp

theorem takes_text (w : String) (rest : List Char) :
    Takes text (w.toList.flatMap escapeChar ++ ['"']) rest w := by
  intro p
  obtain ⟨q, hq⟩ := textBody_escaped w.toList [] p rest
  refine ⟨q, ?_⟩
  simp only [text, List.append_assoc, List.singleton_append, hq]
  simp [Bind.bind, Except.bind, pure, Except.pure]

/-! ### Integers -/

/-- Nothing that would go on with a number. -/
def EndsNumber (rest : List Char) : Prop :=
  ∀ c ∈ rest.head?, c.isDigit = false ∧ c ≠ '.' ∧ c ≠ 'e' ∧ c ≠ 'E'

theorem takes_takeWhile {q : Char → Bool} {w : List Char} (hw : ∀ c ∈ w, q c = true)
    (hrest : ∀ c ∈ rest.head?, q c = false) : Takes (takeWhile q) w rest w := by
  have htake : (w ++ rest).takeWhile q = w := by
    rw [List.takeWhile_append_of_pos hw]
    cases rest with
    | nil => simp
    | cons c u => simp [hrest c rfl]
  have hdrop : (w ++ rest).dropWhile q = rest := by
    rw [List.dropWhile_append_of_pos hw]
    cases rest with
    | nil => rfl
    | cons c u => simp [hrest c rfl]
  exact fun p => ⟨p.steps w, by simp [takeWhile, htake, hdrop, Cursor.advance]⟩

/-- Digits are all read while what they stand for is a word. -/
theorem significand_eq {w : List Char} {m : Nat} (h : Nat.ofDigitChars 10 w m ≤ greatestWord) :
    significand m w = (Nat.ofDigitChars 10 w m, []) := by
  induction w generalizing m with
  | nil => rfl
  | cons c w ih =>
    rw [Nat.ofDigitChars_cons] at h ⊢
    have hgrow : m * 10 + digitValue c ≤ Nat.ofDigitChars 10 w (10 * m + (c.toNat - 48)) := by
      rw [Nat.ofDigitChars_eq_ofDigitChars_zero]
      have hone : 1 ≤ 10 ^ w.length := Nat.one_le_pow _ _ (by decide)
      have := Nat.mul_le_mul_right (10 * m + (c.toNat - 48)) hone
      unfold digitValue
      omega
    have hfits : ¬ greatestWord < m * 10 + digitValue c := by
      have h' : Nat.ofDigitChars 10 w (10 * m + (c.toNat - 48)) ≤ greatestWord := h
      omega
    rw [significand, if_neg hfits]
    have hcomm : m * 10 + digitValue c = 10 * m + (c.toNat - '0'.toNat) := by
      rw [Nat.mul_comm]
      rfl
    rw [hcomm]
    exact ih h

theorem head_toDigits {n : Nat} (h : 0 < n) : (Nat.toDigits 10 n).head? ≠ some '0' := by
  induction n using Nat.strongRecOn with
  | ind n ih =>
    rw [Nat.toDigits_eq_if (by decide)]
    split
    · next hn =>
      have : ∀ n < 10, 0 < n → [Nat.digitChar n].head? ≠ some '0' := by decide
      exact this n hn h
    · next hn =>
      rw [List.head?_append_of_ne_nil _ Nat.toDigits_ne_nil]
      exact ih (n / 10) (by omega) (by omega)

theorem head?_toDigits_append (n : Nat) (rest : List Char) :
    ∃ c, (Nat.toDigits 10 n ++ rest).head? = some c ∧ c.isDigit = true := by
  have hne : (Nat.toDigits 10 n).head? ≠ none := mt List.head?_eq_none_iff.1 Nat.toDigits_ne_nil
  obtain ⟨c, hc⟩ := Option.ne_none_iff_exists'.1 hne
  refine ⟨c, (List.head?_append_of_ne_nil _ Nat.toDigits_ne_nil).trans hc, ?_⟩
  exact Nat.isDigit_of_mem_toDigits (by decide) (by decide) (List.mem_of_head? hc)

theorem takes_number_zero (negative : Bool) (hrest : EndsNumber rest) :
    Takes (number negative) ['0'] rest (whole negative 0) := by
  refine Takes.peek (Takes.skip (Takes.peek ?_))
  rw [List.nil_append]
  split
  · next h => exact absurd rfl (hrest _ h).2.1
  · next h => exact absurd rfl (hrest _ h).2.2.1
  · next h => exact absurd rfl (hrest _ h).2.2.2
  · next h =>
    rw [if_neg (by simp [(hrest _ h).1])]
    exact takes_pure _ rest
  · exact takes_pure _ rest

theorem significand_toDigits {n : Nat} (hn : n ≤ greatestWord) :
    significand 0 (Nat.toDigits 10 n) = (n, []) := by
  have h := significand_eq (w := Nat.toDigits 10 n) (m := 0)
  rw [Nat.ofDigitChars_ten_toDigits] at h
  exact h hn

theorem takes_number_pos (negative : Bool) {n : Nat} (hpos : 0 < n) (hn : n ≤ greatestWord)
    (hrest : EndsNumber rest) : Takes (number negative) (Nat.toDigits 10 n) rest (whole negative n) := by
  have hdigits : ∀ c ∈ Nat.toDigits 10 n, c.isDigit = true := fun c hc =>
    Nat.isDigit_of_mem_toDigits (by decide) (by decide) hc
  have hread := takes_takeWhile hdigits fun c hc => (hrest c hc).1
  refine Takes.peek ?_
  rw [List.head?_append_of_ne_nil _ Nat.toDigits_ne_nil]
  split
  · next h => exact absurd (List.head?_eq_none_iff.1 h) Nat.toDigits_ne_nil
  · next h => exact absurd h (head_toDigits hpos)
  · next c _ h =>
    rw [if_pos (hdigits c (List.mem_of_head? h)), ← List.append_nil (Nat.toDigits 10 n)]
    refine Takes.bind hread ?_
    simp only [significand_toDigits hn]
    refine Takes.peek ?_
    rw [List.nil_append]
    split
    · next h => exact absurd rfl (hrest _ h).2.1
    · next h => exact absurd rfl (hrest _ h).2.2.1
    · next h => exact absurd rfl (hrest _ h).2.2.2
    · exact takes_pure _ rest

theorem takes_number (negative : Bool) {n : Nat} (hn : n ≤ greatestWord) (hrest : EndsNumber rest) :
    Takes (number negative) (Nat.toDigits 10 n) rest (whole negative n) := by
  rcases Nat.eq_zero_or_pos n with rfl | hpos
  · rw [Nat.toDigits_zero]
    exact takes_number_zero negative hrest
  · exact takes_number_pos negative hpos hn hrest

/-! ### Values -/

theorem isSpace_of_isDigit {c : Char} (h : c.isDigit = true) : isSpace c = false := by
  unfold isSpace
  rcases hspace : (c == ' ' || c == '\n' || c == '\t' || c == '\r') with _ | _
  · rfl
  · simp only [Bool.or_eq_true, beq_iff_eq] at hspace
    rcases hspace with ((rfl | rfl) | rfl) | rfl <;> exact absurd h (by decide)

/-- What scalars read when the next character opens a text, a word, a number, a list or an object. -/
theorem takes_scalar_text (w : String) (rest : List Char) :
    Takes scalar (renderText w.toList) rest (some (.text w)) := by
  refine Takes.next (fun c hc => by cases hc; rfl) ?_
  exact ((takes_text w rest).map).skip

theorem takes_scalar_bool (b : Bool) (rest : List Char) :
    Takes scalar (Raw.bool b).render rest (some (.bool b)) := by
  cases b with
  | false => exact Takes.next (fun c hc => by cases hc; rfl) (takes_word _ rest).map.skip
  | true => exact Takes.next (fun c hc => by cases hc; rfl) (takes_word _ rest).map.skip

theorem takes_scalar_null (rest : List Char) :
    Takes scalar Raw.null.render rest (some .null) :=
  Takes.next (fun c hc => by cases hc; rfl) (takes_word _ rest).map.skip

theorem takes_scalar_digits {n : Nat} (hn : n ≤ greatestWord) (hrest : EndsNumber rest) :
    Takes scalar (Nat.toDigits 10 n) rest (some (.number (.int n))) := by
  obtain ⟨c, hc, hdigit⟩ := head?_toDigits_append n rest
  refine Takes.next (fun d hd => ?_) ?_
  · rw [hc] at hd
    cases hd
    exact isSpace_of_isDigit hdigit
  · rw [hc]
    split
    case h_1 h => cases h
    case h_9 d _ _ _ _ _ _ _ h =>
      cases h
      rw [if_pos hdigit]
      exact (takes_number false hn hrest).map
    -- no digit opens anything else
    all_goals
      next h =>
        cases h
        exact absurd hdigit (by decide)

theorem whole_negSucc {n : Nat} (h : n + 1 ≤ twoTo 63) : whole true (n + 1) = .int (.negSucc n) := by
  have hsmall : (n + 1 = 0 || decide (twoTo 63 < n + 1)) = false := by
    rw [decide_eq_false (Nat.succ_ne_zero n), decide_eq_false (Nat.not_lt.2 h)]
    rfl
  rw [whole, if_pos rfl, hsmall]
  rfl

theorem takes_scalar_number {m : Number} (hm : m.IsWord) (hrest : EndsNumber rest) :
    Takes scalar m.render rest (some (.number m)) := by
  cases m with
  | float x => exact hm.elim
  | int m =>
    obtain ⟨hlow, hhigh⟩ := hm
    cases m with
    | negSucc n =>
      have hword : n + 1 ≤ twoTo 63 := by omega
      have hread := takes_number true (n := n + 1) (le_trans hword (by decide)) hrest
      rw [whole_negSucc hword] at hread
      exact Takes.next (fun c hc => by cases hc; rfl) hread.map.skip
    | ofNat n =>
      have hword : n ≤ greatestWord := by
        have : (n : Int) < (twoTo 64 : Int) := hhigh
        unfold greatestWord
        omega
      exact takes_scalar_digits hword hrest

/-- A bracket or a brace opens no scalar and is left. -/
theorem takes_scalar_open {c : Char} (hc : c = '[' ∨ c = '\x7b') (u : List Char) :
    Takes scalar [] (c :: u) none := by
  rcases hc with rfl | rfl
  · exact Takes.next (fun c hc => by cases hc; rfl) (takes_pure none _)
  · exact Takes.next (fun c hc => by cases hc; rfl) (takes_pure none _)

/-- Something that may open a value. -/
def OpensValue (u : List Char) : Prop :=
  ∃ c, u.head? = some c ∧ isSpace c = false ∧ c ≠ ']'

theorem opensValue_render {r : Raw} (h : r.Integral) (u : List Char) : OpensValue (r.render ++ u) := by
  cases h with
  | null => exact ⟨'n', rfl, by decide⟩
  | bool b => cases b with
    | false => exact ⟨'f', rfl, by decide⟩
    | true => exact ⟨'t', rfl, by decide⟩
  | text w => exact ⟨'"', rfl, by decide⟩
  | list h => exact ⟨'[', rfl, by decide⟩
  | object h => exact ⟨'\x7b', rfl, by decide⟩
  | @number m h =>
    cases m with
    | float x => exact h.elim
    | int m =>
      cases m with
      | negSucc n => exact ⟨'-', rfl, by decide⟩
      | ofNat n =>
        cases hn : Nat.toDigits 10 n with
        | nil => exact absurd hn Nat.toDigits_ne_nil
        | cons c w =>
          have hc : c.isDigit = true :=
            Nat.isDigit_of_mem_toDigits (by decide) (by decide) (hn ▸ List.mem_cons_self)
          refine ⟨c, by simp [Raw.render, Number.render, renderInt, hn], isSpace_of_isDigit hc, ?_⟩
          rintro rfl
          exact absurd hc (by decide)

theorem takes_hasItem (first : Bool) (h : OpensValue rest) :
    Takes (hasItem first) (Raw.comma first) rest true := by
  obtain ⟨c, hc, hspace, hend⟩ := h
  cases first with
  | true =>
    refine Takes.next (fun a ha => ?_) ?_
    · have : a = c := Option.some.inj (ha.symm.trans hc)
      exact this ▸ hspace
    · rw [show Raw.comma true = [] from rfl, List.nil_append, hc]
      split
      · next h => cases h
      · next h => exact absurd (Option.some.inj h) hend
      · exact takes_pure true rest
  | false =>
    refine Takes.next (fun a ha => by cases ha; rfl) (Takes.skip (Takes.next (fun a ha => ?_) ?_))
    · have : a = c := Option.some.inj (ha.symm.trans hc)
      exact this ▸ hspace
    · rw [List.nil_append, hc]
      split
      · next h => exact absurd (Option.some.inj h) hend
      · exact takes_pure true rest
      · next h => cases h

theorem takes_hasItem_end (first : Bool) (u : List Char) :
    Takes (hasItem first) [] (']' :: u) false :=
  Takes.next (fun a ha => by cases ha; rfl) (takes_pure false _)

theorem takes_hasMember (first : Bool) (u : List Char) :
    Takes (hasMember first) (Raw.comma first) ('"' :: u) true := by
  cases first with
  | true => exact Takes.next (fun a ha => by cases ha; rfl) (takes_pure true _)
  | false =>
    exact Takes.next (fun a ha => by cases ha; rfl)
      (Takes.skip (Takes.next (fun a ha => by cases ha; rfl) (takes_pure true _)))

theorem takes_hasMember_end (first : Bool) (u : List Char) :
    Takes (hasMember first) [] ('\x7d' :: u) false :=
  Takes.next (fun a ha => by cases ha; rfl) (takes_pure false _)

theorem takes_key (k : String) (rest : List Char) : Takes key (renderText k.toList) rest k :=
  (takes_text k rest).skip

theorem takes_colon (rest : List Char) : Takes colon [':'] rest () :=
  Takes.next (fun a ha => by cases ha; rfl) (takes_skip ':' rest)

/-- A tree is read from its text when the steps and the levels suffice. -/
def ReadsBack (r : Raw) : Prop :=
  ∀ fuel room rest, r.render.length ≤ fuel → r.depth ≤ room → EndsNumber rest →
    Takes (value fuel room) r.render rest r

theorem render_ne_nil {r : Raw} (h : r.Integral) : r.render ≠ [] := by
  obtain ⟨c, hc, -⟩ := opensValue_render h []
  rintro hnil
  rw [hnil] at hc
  cases hc

theorem endsNumber_items (rs : List Raw) (u : List Char) :
    EndsNumber (Raw.renderItems false rs ++ ']' :: u) := by
  cases rs with
  | nil => exact fun c hc => by cases hc; decide
  | cons r rs => exact fun c hc => by cases hc; decide

theorem endsNumber_members (ms : List (String × Raw)) (u : List Char) :
    EndsNumber (Raw.renderMembers false ms ++ '\x7d' :: u) := by
  cases ms with
  | nil => exact fun c hc => by cases hc; decide
  | cons m ms => exact fun c hc => by cases hc; decide

theorem takes_items {rs : List Raw} (hi : ∀ r ∈ rs, r.Integral) (hr : ∀ r ∈ rs, ReadsBack r)
    {fuel room : Nat} (first : Bool) (hfuel : (Raw.renderItems first rs).length < fuel)
    (hroom : Raw.depthItems rs ≤ room) (u : List Char) :
    Takes (items fuel room first) (Raw.renderItems first rs) (']' :: u) rs := by
  induction rs generalizing fuel first with
  | nil =>
    cases fuel with
    | zero => exact absurd hfuel (Nat.not_lt_zero _)
    | succ fuel =>
      refine Takes.bind (t := []) (takes_hasItem_end first u) ?_
      exact takes_pure [] _
  | cons r rs ih =>
    obtain ⟨hir, hirs⟩ := List.forall_mem_cons.1 hi
    obtain ⟨hrr, hrrs⟩ := List.forall_mem_cons.1 hr
    obtain ⟨hroomr, hroomrs⟩ := max_le_iff.1 (Raw.depthItems.eq_2 r rs ▸ hroom)
    have hlen := List.length_pos_of_ne_nil (render_ne_nil hir)
    rw [Raw.renderItems, List.length_append, List.length_append] at hfuel
    cases fuel with
    | zero => exact absurd hfuel (Nat.not_lt_zero _)
    | succ fuel =>
      rw [Raw.renderItems]
      refine (takes_hasItem first (List.append_assoc _ _ _ ▸ opensValue_render hir _)).bind ?_
      refine (hrr fuel room _ (by omega) hroomr (endsNumber_items rs u)).bind ?_
      exact (ih hirs hrrs false (by omega) hroomrs).map

theorem takes_members {ms : List (String × Raw)} (hr : ∀ m ∈ ms, ReadsBack m.2) {fuel room : Nat}
    (first : Bool) (hfuel : (Raw.renderMembers first ms).length < fuel)
    (hroom : Raw.depthMembers ms ≤ room) (u : List Char) :
    Takes (members fuel room first) (Raw.renderMembers first ms) ('\x7d' :: u) ms := by
  induction ms generalizing fuel first with
  | nil =>
    cases fuel with
    | zero => exact absurd hfuel (Nat.not_lt_zero _)
    | succ fuel =>
      refine Takes.bind (t := []) (takes_hasMember_end first u) ?_
      exact takes_pure [] _
  | cons m ms ih =>
    obtain ⟨k, r⟩ := m
    obtain ⟨hrr, hrms⟩ := List.forall_mem_cons.1 hr
    have hrr : ReadsBack r := hrr
    obtain ⟨hroomr, hroomms⟩ := max_le_iff.1 (Raw.depthMembers.eq_2 k r ms ▸ hroom)
    rw [Raw.renderMembers] at hfuel
    simp only [List.length_append, List.length_cons] at hfuel
    cases fuel with
    | zero => exact absurd hfuel (Nat.not_lt_zero _)
    | succ fuel =>
      rw [Raw.renderMembers]
      refine (takes_hasMember first _).bind ?_
      refine (takes_key k _).bind ?_
      refine (takes_colon _).bind (s := [':']) ?_
      refine (hrr fuel room _ (by omega) hroomr (endsNumber_members ms u)).bind ?_
      exact (ih hrms false (by omega) hroomms).map

theorem readsBack_of_scalar {r : Raw} (hne : r.render ≠ [])
    (h : ∀ rest, EndsNumber rest → Takes scalar r.render rest (some r)) : ReadsBack r := by
  intro fuel room rest hfuel _ hrest
  cases fuel with
  | zero => exact absurd (List.length_pos_of_ne_nil hne) (Nat.not_lt.2 hfuel)
  | succ fuel =>
    rw [← List.append_nil r.render]
    refine Takes.bind (h rest hrest) ?_
    exact takes_pure r rest

theorem readsBack_list {rs : List Raw} (hi : ∀ r ∈ rs, r.Integral) (hr : ∀ r ∈ rs, ReadsBack r) :
    ReadsBack (.list rs) := by
  intro fuel room rest hfuel hroom _
  simp only [Raw.render, List.length_cons, List.length_append, List.length_nil] at hfuel
  rw [Raw.depth] at hroom
  cases fuel with
  | zero => exact absurd hfuel (Nat.not_lt_zero _)
  | succ fuel =>
    cases room with
    | zero => exact absurd hroom (Nat.not_lt_zero _)
    | succ room =>
      refine Takes.bind (s := []) (takes_scalar_open (.inl rfl) _) ?_
      refine Takes.peek (Takes.skip ?_)
      refine (takes_items hi hr true (by omega) (Nat.le_of_succ_le_succ hroom) _).bind ?_
      exact (takes_skip ']' rest).map

theorem readsBack_object {ms : List (String × Raw)} (hr : ∀ m ∈ ms, ReadsBack m.2) :
    ReadsBack (.object ms) := by
  intro fuel room rest hfuel hroom _
  simp only [Raw.render, List.length_cons, List.length_append, List.length_nil] at hfuel
  rw [Raw.depth] at hroom
  cases fuel with
  | zero => exact absurd hfuel (Nat.not_lt_zero _)
  | succ fuel =>
    cases room with
    | zero => exact absurd hroom (Nat.not_lt_zero _)
    | succ room =>
      refine Takes.bind (s := []) (takes_scalar_open (.inr rfl) _) ?_
      refine Takes.peek (Takes.skip ?_)
      refine (takes_members hr true (by omega) (Nat.le_of_succ_le_succ hroom) _).bind ?_
      exact (takes_skip '\x7d' rest).map

/-- A tree of integers is read back. -/
theorem readsBack_of_integral {r : Raw} (h : r.Integral) : ReadsBack r := by
  have hne := render_ne_nil h
  induction h with
  | null => exact readsBack_of_scalar hne fun rest _ => takes_scalar_null rest
  | bool b => exact readsBack_of_scalar hne fun rest _ => takes_scalar_bool b rest
  | number hm => exact readsBack_of_scalar hne fun rest hrest => takes_scalar_number hm hrest
  | text w => exact readsBack_of_scalar hne fun rest _ => takes_scalar_text w rest
  | list hi ih => exact readsBack_list hi fun r hr => ih r hr (render_ne_nil (hi r hr))
  | object hi ih => exact readsBack_object fun m hm => ih m hm (render_ne_nil (hi m hm))

theorem takes_anyValue {r : Raw} (h : r.Integral) {room : Nat} (hroom : r.depth ≤ room)
    (hrest : EndsNumber rest) : Takes (anyValue room) r.render rest r := by
  intro p
  refine readsBack_of_integral h _ room rest ?_ hroom hrest p
  simp only [fuelFor, List.length_append]
  omega

theorem takes_atEnd : Takes atEnd [] [] () :=
  Takes.next (fun c hc => by cases hc) (takes_pure () [])

/-- A reader that takes the whole of a text gives its answer for it. -/
theorem run_eq_of_takes (w : String) (h : Takes r w.toList [] a) : run r w = .ok a := by
  have hall : Takes (do let a ← r; atEnd; pure a : Reader α) (w.toList ++ []) [] a := by
    refine Takes.bind h ?_
    exact takes_atEnd.map
  obtain ⟨q, hq⟩ := hall .start
  rw [List.append_nil, List.append_nil] at hq
  rw [run, Cursor.start, hq]

/-! ### Messages -/

theorem Takes.get {f : Cursor → Reader β} (hf : ∀ p, Takes (f ⟨s ++ rest, p⟩) s rest b) :
    Takes (MonadState.get >>= f) s rest b :=
  fun p => hf p p

theorem takes_kind {f : Family} {k : String} (hk : k ∈ f.kinds) (rest : List Char) :
    Takes (kind f) (renderText k.toList) rest k := by
  refine Takes.next (fun c hc => by cases hc; rfl) (Takes.skip ?_)
  rw [← List.append_nil (k.toList.flatMap escapeChar ++ ['"'])]
  refine Takes.bind (takes_text k _) ?_
  rw [if_pos (List.contains_iff_mem.2 hk)]
  exact takes_pure k rest

/-- Members behind the kind are read as they are. -/
theorem takes_taggedMembers (f : Family) {ms : List (String × Raw)} (hi : ∀ m ∈ ms, m.2.Integral)
    (hname : ∀ m ∈ ms, m.1 ≠ "type") {fuel room : Nat} (first : Bool) (tag : Option String)
    (hfuel : ms.length < fuel) (hroom : Raw.depthMembers ms ≤ room) (u : List Char) :
    Takes (taggedMembers f room fuel first tag) (Raw.renderMembers first ms) ('\x7d' :: u) (tag, ms) := by
  induction ms generalizing fuel first with
  | nil =>
    cases fuel with
    | zero => exact absurd hfuel (Nat.not_lt_zero _)
    | succ fuel =>
      refine Takes.bind (t := []) (takes_hasMember_end first u) ?_
      exact takes_pure (tag, []) _
  | cons m ms ih =>
    obtain ⟨k, r⟩ := m
    obtain ⟨hir, hims⟩ := List.forall_mem_cons.1 hi
    obtain ⟨hk, hms⟩ := List.forall_mem_cons.1 hname
    obtain ⟨hroomr, hroomms⟩ := max_le_iff.1 (Raw.depthMembers.eq_2 k r ms ▸ hroom)
    cases fuel with
    | zero => exact absurd hfuel (Nat.not_lt_zero _)
    | succ fuel =>
      rw [Raw.renderMembers]
      refine (takes_hasMember first _).bind ?_
      refine (takes_key k _).bind ?_
      simp only [if_neg hk]
      refine (takes_colon _).bind (s := [':']) ?_
      refine (takes_anyValue hir hroomr (endsNumber_members ms u)).bind ?_
      exact (ih hims hms false (Nat.lt_of_succ_lt_succ hfuel) hroomms).map

theorem length_le_renderMembers (first : Bool) (ms : List (String × Raw)) :
    ms.length ≤ (Raw.renderMembers first ms).length := by
  induction ms generalizing first with
  | nil => exact Nat.zero_le _
  | cons m ms ih =>
    have hrest := ih false
    simp only [Raw.renderMembers, List.length_append, List.length_cons]
    omega

/-- The kind stands first. -/
theorem takes_kindFirst {f : Family} {k : String} {ms : List (String × Raw)} (hk : k ∈ f.kinds)
    (hi : ∀ m ∈ ms, m.2.Integral) (hname : ∀ m ∈ ms, m.1 ≠ "type") {fuel room : Nat}
    (hfuel : (Raw.renderMembers true (("type", .text k) :: ms)).length < fuel)
    (hroom : Raw.depthMembers ms ≤ room) (u : List Char) :
    Takes (taggedMembers f room fuel true none) (Raw.renderMembers true (("type", .text k) :: ms))
      ('\x7d' :: u) (some k, ms) := by
  have hlen := (length_le_renderMembers true (("type", Raw.text k) :: ms)).trans_lt hfuel
  cases fuel with
  | zero => exact absurd hfuel (Nat.not_lt_zero _)
  | succ fuel =>
    rw [Raw.renderMembers, Raw.render]
    refine (takes_hasMember true _).bind ?_
    refine (takes_key "type" _).bind ?_
    simp only [if_true, Option.isSome_none, Bool.false_eq_true, if_false]
    refine (takes_colon _).bind (s := [':']) ?_
    refine (takes_kind hk _).bind ?_
    exact takes_taggedMembers f hi hname false (some k) (Nat.lt_of_succ_lt_succ hlen) hroom u

/-- What is left of the text of an object suffices as fuel for its members. -/
theorem fuelFor_members (ms : List (String × Raw)) (rest : List Char) (p : Position) :
    (Raw.renderMembers true ms).length < fuelFor ⟨Raw.renderMembers true ms ++ ['\x7d'] ++ rest, p⟩ := by
  simp only [fuelFor, List.length_append]
  omega

theorem takes_tagged {f : Family} {k : String} {ms : List (String × Raw)} (hk : k ∈ f.kinds)
    (hi : ∀ m ∈ ms, m.2.Integral) (hname : ∀ m ∈ ms, m.1 ≠ "type")
    (hdepth : (Raw.object ms).depth ≤ greatestDepth) (rest : List Char) :
    Takes (tagged f) (Raw.object (("type", .text k) :: ms)).render rest (k, .object ms) := by
  rw [Raw.render]
  refine Takes.next (fun c hc => by cases hc; rfl) (Takes.skip (Takes.get fun p => ?_))
  have hroom : Raw.depthMembers ms ≤ greatestDepth - 1 := Nat.le_sub_of_add_le hdepth
  refine (takes_kindFirst hk hi hname (fuelFor_members _ rest p) hroom rest).bind ?_
  exact (takes_skip '\x7d' rest).map

/-- A message is decoded from the text of its kind and its members. -/
theorem decode_render {f : Family} {content : String → Raw → Decoded α} {k : String}
    {ms : List (String × Raw)} (hk : k ∈ f.kinds) (hi : ∀ m ∈ ms, m.2.Integral)
    (hname : ∀ m ∈ ms, m.1 ≠ "type") (hdepth : (Raw.object ms).depth ≤ greatestDepth)
    (ha : content k (.object ms) = .ok a) :
    decode f content (String.ofList (Raw.object (("type", .text k) :: ms)).render) = .ok a := by
  refine run_eq_of_takes _ ?_
  rw [String.toList_ofList, ← List.append_nil (Raw.render _)]
  refine Takes.bind (takes_tagged hk hi hname hdepth []) ?_
  simp only [ha]
  exact takes_pure a []

end Reader

namespace Value

/-- A value of integers in key order is read back from its text. -/
theorem parse_compact {v : Value} (ho : v.Ordered) (hi : v.Integral)
    (hd : v.depth ≤ Reader.greatestDepth) : parse v.compact = .ok v := by
  have htext : v.compact.toList = v.toRaw.render := by
    rw [compact, String.toList_ofList, render_toRaw]
  have hread : Reader.Takes (Reader.anyValue Reader.greatestDepth) v.compact.toList [] v.toRaw :=
    htext ▸ Reader.takes_anyValue hi (v.depth_toRaw ▸ hd) fun c hc => by cases hc
  rw [parse, Reader.run_eq_of_takes v.compact hread, Except.map, toValue_toRaw ho]

end Value

end SecureLayout.Json
