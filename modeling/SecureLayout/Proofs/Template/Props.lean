import SecureLayout.Proofs.Gives
import SecureLayout.Proofs.Template.Inner
import SecureLayout.Proofs.Text.Splitting
import SecureLayout.Template.Directive

/-!
Directives and the texts that their props stand for. Main statement: the text of a prop stands between
brackets as it should, and holds no reserved name unless its directive does.
-/

namespace SecureLayout.Template

open Lexer

/-! ### Names in texts without quotes -/

theorem start_quiet {c : Char} (h : Inside.isQuote c = false) : (Naming.start c).Quiet := by
  unfold Naming.start
  split_ifs
  · exact .name _
  · exact .number
  · have hnext : Inside.next .code c = .code := by
      rw [Inside.next, h]
      rfl
    rw [hnext]
    exact .outside

/-- Where no name is found the scanner goes on in one way, whatever follows. -/
theorem reservedName?_step {m : Naming} (hm : m.Quiet) {c : Char} {s : List Char}
    (h : reservedName? m (c :: s) = none) :
    (∀ u, reservedName? m (c :: u) = reservedName? (Naming.start c) u) ∨
      Inside.isQuote c = false ∧ ∃ m' : Naming, m'.Quiet ∧ ∀ u, reservedName? m (c :: u) = reservedName? m' u := by
  cases hm with
  | outside => exact .inl fun _ => rfl
  | name letters =>
    by_cases hp : Text.isNamePart c = true
    · refine .inr ⟨(isFlat_of_isNamePart hp).1, .name (c :: letters), .name _, fun u => ?_⟩
      rw [reservedName?, if_pos hp]
    · left
      intro u
      rw [reservedName?, if_neg hp] at h ⊢
      split at h
      · cases h
      · rfl
  | number =>
    by_cases hp : Text.isNamePart c = true
    · refine .inr ⟨(isFlat_of_isNamePart hp).1, .number, .number, fun u => ?_⟩
      rw [reservedName?, if_pos hp]
    · left
      intro u
      rw [reservedName?, if_neg hp]

/-- No character is a quote. -/
def Unquoted (w : List Char) : Prop :=
  ∀ c ∈ w, Inside.isQuote c = false

/-- Nothing reserved stands in the text, nor in what follows it and does not go on with a name. -/
def Skips (w : List Char) : Prop :=
  ∀ r, (∀ a s, r = a :: s → Text.isNamePart a = false) → reservedName? (.outside .code) r = none →
    reservedName? (.outside .code) (w ++ r) = none

theorem reservedName?_append {w r : List Char} (hw : Unquoted w) {m : Naming} (hm : m.Quiet)
    (h : reservedName? m w = none) (hr : ∀ a s, r = a :: s → Text.isNamePart a = false)
    (hnone : reservedName? (.outside .code) r = none) : reservedName? m (w ++ r) = none := by
  induction w generalizing m with
  | nil =>
    cases r with
    | nil => exact h
    | cons a r =>
      have ha := hr a r rfl
      cases hm with
      | outside => exact hnone
      | name letters =>
        change (Naming.name letters).reserved? = none at h
        rw [List.nil_append, reservedName?, ha, if_neg Bool.false_ne_true, h]
        exact hnone
      | number =>
        rw [List.nil_append, reservedName?, ha, if_neg Bool.false_ne_true]
        exact hnone
  | cons c w ih =>
    have hc := hw c List.mem_cons_self
    have ih := fun {m} => ih (m := m) fun a ha => hw a (List.mem_cons_of_mem _ ha)
    rcases reservedName?_step hm h with hstep | ⟨-, m', hm', hstep⟩
    · rw [hstep] at h
      rw [List.cons_append, hstep]
      exact ih (start_quiet hc) h
    · rw [hstep] at h
      rw [List.cons_append, hstep]
      exact ih hm' h

theorem Skips.of_unquoted {w : List Char} (hw : Unquoted w) (h : reservedName? (.outside .code) w = none) :
    Skips w :=
  fun _ hr hnone => reservedName?_append hw .outside h hr hnone

theorem Skips.of_string {b : List Char} (hb : ∀ r, stringBody? '"' false (b ++ '"' :: r) = some (b, r)) :
    Skips ('"' :: (b ++ ['"'])) := by
  intro r _ hnone
  rw [List.cons_append, List.append_assoc, List.singleton_append, reservedName?_outside]
  change reservedName? (.outside (.string '"' false)) _ = none
  rw [reservedName?_string (hb r)]
  exact hnone

/-- Digits, points and signs hold no name. -/
theorem reservedName?_digits {w : List Char} (hw : ∀ c ∈ w, c.isDigit = true ∨ c = '.' ∨ c = '-') {m : Naming}
    (hm : m = .outside .code ∨ m = .number) : reservedName? m w = none := by
  induction w generalizing m with
  | nil => rcases hm with rfl | rfl <;> rfl
  | cons c w ih =>
    have ih := fun {m} => ih (m := m) fun a ha => hw a (List.mem_cons_of_mem _ ha)
    have hstart : Naming.start c = .outside .code ∨ Naming.start c = .number := by
      rcases hw c List.mem_cons_self with hd | rfl | rfl
      · right
        rw [Naming.start, not_isNameStart_of_isDigit hd, hd]
        rfl
      · exact .inl rfl
      · exact .inl rfl
    rcases hm with rfl | rfl
    · exact ih hstart
    · rw [reservedName?]
      split
      · exact ih (.inr rfl)
      · exact ih hstart

/-- The text that stands for a value in the call. -/
def PropSource.text : PropSource → List Char
  | .literal v => v
  | .binding v => v

/-- The policy permits it, if it is a path. -/
def PropSource.PermittedBy (policy : SecurityPolicy) (src : PropSource) : Prop :=
  ∀ path, src = .binding path → policy.validateExpression (String.ofList path) = true

/-! ### Words of a directive -/

namespace Directive

/-- The scanner of names goes along with the reader of words. -/
structure Along (m : Naming) (w : Words) : Prop where
  quoted : ∀ q, w.quote = some q → Inside.isQuote q = true ∧ m = .outside (.string q w.escaped)
  plain : w.quote = none → m.Quiet ∧ w.escaped = false
  done : ∀ u ∈ w.done, Unquoted u → reservedName? (.outside .code) u = none
  current : w.quote = none → Unquoted w.current → ∀ v, reservedName? m v = none →
    reservedName? (.outside .code) (w.current.reverse ++ v) = none

theorem Along.reserved? {m : Naming} {w : Words} (h : Along m w) {c : Char} {s : List Char}
    (hq : w.quote = none) (hc : Text.isNamePart c = false) (hnone : reservedName? m (c :: s) = none) :
    reservedName? m [] = none := by
  obtain ⟨hm, -⟩ := h.plain hq
  cases hm with
  | outside => rfl
  | name letters =>
    rw [reservedName?, hc, if_neg Bool.false_ne_true] at hnone
    split at hnone
    · cases hnone
    · assumption
  | number => rfl

/-- A word that ends holds nothing reserved. -/
theorem Along.finish {m : Naming} {w : Words} (h : Along m w) (hq : w.quote = none)
    (hnone : reservedName? m [] = none) :
    ∀ u ∈ w.finish.done, Unquoted u → reservedName? (.outside .code) u = none := by
  intro u hu hplain
  unfold Words.finish at hu
  split at hu
  · exact h.done u hu hplain
  · rcases List.mem_cons.1 hu with rfl | hu
    · have := h.current hq (fun c hc => hplain c (List.mem_reverse.2 hc)) [] hnone
      rwa [List.append_nil] at this
    · exact h.done u hu hplain

theorem isBlank_quiet {c : Char} (h : Text.isBlank c = true) :
    Text.isNamePart c = false ∧ Inside.next .code c = .code := by
  have hne : ∀ a : Char, Text.isBlank a = false → c ≠ a := by
    rintro a ha rfl
    rw [h] at ha
    cases ha
  constructor
  · cases hp : Text.isNamePart c with
    | false => rfl
    | true =>
      rw [not_isBlank_of_isNamePart hp] at h
      cases h
  · have hq : Inside.isQuote c = false := by
      simp only [Inside.isQuote, Bool.or_eq_false_iff, beq_eq_false_iff_ne]
      exact ⟨hne _ (by decide), hne _ (by decide)⟩
    rw [Inside.next, hq]
    rfl

/-- Before the first character of a word the scanner stands outside names. -/
theorem Along.blank {m : Naming} {w : Words} (h : Along m w) {c : Char} {s : List Char} (hq : w.quote = none)
    (hc : Text.isBlank c = true) (hnone : reservedName? m (c :: s) = none) :
    Along (.outside .code) w.finish ∧ reservedName? (.outside .code) s = none := by
  obtain ⟨hpart, hnext⟩ := isBlank_quiet hc
  obtain ⟨hm, hescaped⟩ := h.plain hq
  have hfinish : w.finish.quote = w.quote ∧ w.finish.escaped = w.escaped ∧ w.finish.current = [] := by
    unfold Words.finish
    split
    · next he => exact ⟨rfl, rfl, by simpa using he⟩
    · exact ⟨rfl, rfl, rfl⟩
  have hrest := reservedName?_break hm hpart hnone
  rw [reservedName?_outside, start_of_quiet hpart hnext] at hrest
  refine ⟨⟨?_, ?_, h.finish hq (h.reserved? hq hpart hnone), ?_⟩, hrest⟩
  · intro q hq'
    rw [hfinish.1, hq] at hq'
    cases hq'
  · exact fun _ => ⟨.outside, hfinish.2.1.trans hescaped⟩
  · intro _ _ v hv
    rw [hfinish.2.2]
    exact hv

theorem Along.step {m : Naming} {w : Words} (h : Along m w) {c : Char} {s : List Char}
    (hnone : reservedName? m (c :: s) = none) : ∃ m', Along m' (w.step c) ∧ reservedName? m' s = none := by
  obtain ⟨done, current, quote, escaped⟩ := w
  cases quote with
  | some q =>
    obtain ⟨hq, rfl⟩ := h.quoted q rfl
    rw [reservedName?] at hnone
    refine ⟨_, ?_, hnone⟩
    have hin : ∀ e, Inside.next (.string q escaped) c = .string q e →
        Along (.outside (Inside.next (.string q escaped) c)) ⟨done, c :: current, some q, e⟩ := by
      intro e he
      refine ⟨?_, (by intros; contradiction), h.done, (by intros; contradiction)⟩
      rintro q' ⟨⟩
      exact ⟨hq, by rw [he]⟩
    cases escaped with
    | true => exact hin false rfl
    | false =>
      unfold Words.step
      simp only [Bool.false_eq_true, if_false]
      by_cases hc : c = '\\'
      · rw [if_pos hc]
        exact hin true (by rw [Inside.next, if_pos hc])
      · rw [if_neg hc]
        by_cases hend : c = q
        · rw [if_pos hend, Inside.next, if_neg hc, if_pos hend]
          refine ⟨(by intros; contradiction), fun _ => ⟨.outside, rfl⟩, h.done, fun _ hplain => ?_⟩
          have hc := hplain c List.mem_cons_self
          rw [hend, hq] at hc
          cases hc
        · rw [if_neg hend]
          exact hin false (by rw [Inside.next, if_neg hc, if_neg hend])
  | none =>
    obtain ⟨hm, rfl⟩ := h.plain rfl
    unfold Words.step
    dsimp only
    by_cases hquote : Inside.isQuote c = true
    · have hquote' : (decide (c = '"') || decide (c = '\'')) = true := by
        simpa [Inside.isQuote] using hquote
      have hflat : Text.isNamePart c = false := by
        cases hp : Text.isNamePart c with
        | false => rfl
        | true =>
          rw [(isFlat_of_isNamePart hp).1] at hquote
          cases hquote
      have hstart : Naming.start c = .outside (.string c false) := by
        simp only [Inside.isQuote, Bool.or_eq_true, beq_iff_eq] at hquote
        rcases hquote with rfl | rfl <;> rfl
      have hrest := reservedName?_break hm hflat hnone
      rw [reservedName?_outside, hstart] at hrest
      rw [if_pos hquote']
      refine ⟨_, ⟨?_, (by intros; contradiction), h.done, (by intros; contradiction)⟩, hrest⟩
      rintro q ⟨⟩
      exact ⟨hquote, rfl⟩
    · have hquote' : ¬ (decide (c = '"') || decide (c = '\'')) = true := by
        simpa [Inside.isQuote] using hquote
      have hquiet : Inside.isQuote c = false := by simpa using hquote
      rw [if_neg hquote']
      by_cases hblank : Text.isBlank c = true
      · rw [if_pos hblank]
        exact ⟨_, h.blank rfl hblank hnone⟩
      · rw [if_neg hblank]
        have hgo : ∀ m' : Naming, m'.Quiet → (∀ u, reservedName? m (c :: u) = reservedName? m' u) →
            ∃ m', Along m' ⟨done, c :: current, none, false⟩ ∧ reservedName? m' s = none := by
          intro m' hm' hstep
          refine ⟨m', ⟨(by intros; contradiction), fun _ => ⟨hm', rfl⟩, h.done, fun _ hplain v hv => ?_⟩, by rw [← hstep, hnone]⟩
          rw [List.reverse_cons, List.append_assoc, List.singleton_append]
          refine h.current rfl (fun a ha => hplain a (List.mem_cons_of_mem _ ha)) _ ?_
          rw [hstep]
          exact hv
        rcases reservedName?_step hm hnone with hstep | ⟨-, m', hm', hstep⟩
        · exact hgo _ (start_quiet hquiet) hstep
        · exact hgo m' hm' hstep

theorem Along.foldl {m : Naming} {w : Words} (h : Along m w) {s : List Char} (hnone : reservedName? m s = none) :
    ∃ m', Along m' (s.foldl Words.step w) ∧ reservedName? m' [] = none := by
  induction s generalizing m w with
  | nil => exact ⟨m, h, hnone⟩
  | cons c s ih =>
    obtain ⟨m', h', hnone'⟩ := h.step hnone
    exact ih h' hnone'

/-- A word without quotes holds a reserved name only if the directive does. -/
theorem words_unreserved {args : List Char} {ws : List (List Char)} (h : words args = .ok ws)
    (hnone : reservedName? (.outside .code) args = none) :
    ∀ u ∈ ws, Unquoted u → reservedName? (.outside .code) u = none := by
  have hstart : Along (.outside .code) {} := ⟨nofun, fun _ => ⟨.outside, rfl⟩, nofun, fun _ _ _ hv => hv⟩
  obtain ⟨m, halong, hend⟩ := hstart.foldl hnone
  unfold words at h
  dsimp only at h
  split at h
  · cases h
  · next hquote =>
    cases h
    intro u hu
    have hq : (args.foldl Words.step {}).quote = none := by
      cases hq : (args.foldl Words.step {}).quote with
      | none => rfl
      | some q => exact absurd (by rw [hq]; rfl) hquote
    exact halong.finish hq hend u (List.mem_reverse.1 hu)

/-! ### Values of props -/

/-- Text that stands between brackets as it should, without quotes. -/
def FlatInner (w : List Char) : Prop :=
  Inner w ∧ Unquoted w

theorem FlatInner.append {u v : List Char} (h : FlatInner u) (h' : FlatInner v) : FlatInner (u ++ v) :=
  ⟨h.1.append h'.1, fun c hc => (List.mem_append.1 hc).elim (h.2 c) (h'.2 c)⟩

theorem FlatInner.of_flat {w : List Char} (h : ∀ c ∈ w, isFlat c) : FlatInner w :=
  ⟨.of_flat h, fun c hc => (h c hc).1⟩

theorem isFlat_of_isDigit {c : Char} (h : c.isDigit = true) : isFlat c :=
  isFlat_of_isNamePart (isNamePart_of_isDigit h)

theorem splitAt?_eq_some {c : Char} {cs a b : List Char} (h : splitAt? c cs = some (a, b)) :
    cs = a ++ c :: b := by
  unfold splitAt? at h
  split at h
  · cases h
  · next x r hd =>
    cases h
    have hx := dropWhile_head hd
    obtain rfl : x = c := by simpa using hx
    conv_lhs => rw [← List.takeWhile_append_dropWhile (p := (· != x)) (l := cs)]
    rw [hd]

theorem areIndices_flatInner {fuel : Nat} {cs : List Char} (h : areIndices fuel cs = true) : FlatInner cs := by
  induction fuel generalizing cs with
  | zero =>
    cases cs with
    | nil => exact ⟨.nil, nofun⟩
    | cons c cs => cases h
  | succ fuel ih =>
    unfold areIndices at h
    split at h
    · exact ⟨.nil, nofun⟩
    · cases ‹_ = _›
    · next r heq =>
      cases heq
      split at h
      · next digits rest hsplit =>
        rw [Bool.and_eq_true] at h
        have hdigits : ∀ c ∈ digits, c.isDigit = true := by
          have := h.1
          simp only [isDigits, Bool.and_eq_true, List.all_eq_true] at this
          exact this.2
        obtain ⟨hrest, hrest'⟩ := ih h.2
        rw [splitAt?_eq_some hsplit]
        refine ⟨.nested (by decide) (.of_flat fun c hc => isFlat_of_isDigit (hdigits c hc)) hrest, ?_⟩
        intro c hc
        simp only [List.mem_cons, List.mem_append] at hc
        rcases hc with rfl | hc | rfl | hc
        · rfl
        · exact (isFlat_of_isDigit (hdigits c hc)).1
        · rfl
        · exact hrest' c hc
      · cases h
    · cases h

theorem isPathStep_flatInner {cs : List Char} (h : isPathStep cs = true) : FlatInner cs := by
  cases cs with
  | nil => cases h
  | cons c r =>
    simp only [isPathStep, Bool.and_eq_true] at h
    have hname : ∀ a ∈ c :: r.takeWhile Text.isNamePart, isFlat a := by
      intro a ha
      rcases List.mem_cons.1 ha with rfl | ha
      · exact isFlat_of_isNamePart (isNamePart_of_isNameStart h.1)
      · exact isFlat_of_isNamePart (List.mem_takeWhile_imp ha)
    have hall := (FlatInner.of_flat hname).append (areIndices_flatInner h.2)
    rwa [List.cons_append, List.takeWhile_append_dropWhile] at hall

theorem isBindingPath_flatInner {cs : List Char} (h : isBindingPath cs = true) : FlatInner cs := by
  obtain ⟨p, ps, hsplit, hs⟩ := Text.splitOnChar_join '.' cs
  rw [isBindingPath, hsplit, List.all_cons, Bool.and_eq_true, List.all_eq_true] at h
  rw [hs]
  refine (isPathStep_flatInner h.1).append ?_
  clear hsplit hs
  induction ps with
  | nil => exact ⟨.nil, nofun⟩
  | cons q ps ih =>
    have hdot : FlatInner ['.'] := .of_flat fun c hc => by
      rw [List.mem_singleton.1 hc]
      exact ⟨rfl, by decide⟩
    have hq := (hdot.append (isPathStep_flatInner (h.2 q List.mem_cons_self))).append
      (ih ⟨h.1, fun x hx => h.2 x (List.mem_cons_of_mem _ hx)⟩)
    exact hq

/-- A stretch of a string literal that does not end it. -/
def StaysInside (w : List Char) : Prop :=
  ∀ u, stringBody? '"' false (w ++ u) = (stringBody? '"' false u).map fun (x, r) => (w ++ x, r)

theorem StaysInside.append {w w' : List Char} (h : StaysInside w) (h' : StaysInside w') :
    StaysInside (w ++ w') := by
  intro u
  rw [List.append_assoc, h, h']
  cases stringBody? '"' false u <;> simp

theorem StaysInside.nil : StaysInside [] := by
  intro u
  rw [List.nil_append]
  cases stringBody? '"' false u <;> rfl

theorem StaysInside.plain {c : Char} (h : c ≠ '\\') (h' : c ≠ '"') : StaysInside [c] := by
  intro u
  rw [List.singleton_append, stringBody?, if_neg h, if_neg h']
  rfl

theorem StaysInside.escape (c : Char) : StaysInside ['\\', c] := by
  intro u
  rw [List.cons_append, List.singleton_append, stringBody?, if_pos rfl, stringBody?]
  cases stringBody? '"' false u <;> rfl

theorem StaysInside.of_plain {w : List Char} (h : ∀ c ∈ w, c ≠ '\\' ∧ c ≠ '"') : StaysInside w := by
  induction w with
  | nil => exact .nil
  | cons c w ih =>
    obtain ⟨hc, hc'⟩ := h c List.mem_cons_self
    exact (StaysInside.plain hc hc').append (ih fun a ha => h a (List.mem_cons_of_mem _ ha))

theorem StaysInside.stringBody? {w : List Char} (h : StaysInside w) (r : List Char) :
    Lexer.stringBody? '"' false (w ++ '"' :: r) = some (w, r) := by
  rw [h, Lexer.stringBody?, if_neg (by decide), if_pos rfl]
  simp

theorem digitChar_plain : ∀ n < 16, Nat.digitChar n ≠ '\\' ∧ Nat.digitChar n ≠ '"' := by
  decide

theorem escapeChar_staysInside (c : Char) : StaysInside (Json.escapeChar c) := by
  unfold Json.escapeChar
  split
  · exact .escape _
  · exact .escape _
  · exact .escape _
  · exact .escape _
  · exact .escape _
  · exact .escape _
  · exact .escape _
  · next hquote hslash _ _ _ _ _ =>
    split
    · next hcontrol =>
      refine (StaysInside.escape 'u').append (StaysInside.of_plain ?_)
      intro a ha
      simp only [List.mem_cons, List.not_mem_nil, or_false] at ha
      rcases ha with rfl | rfl | rfl | rfl
      · decide
      · decide
      · exact digitChar_plain _ (by omega)
      · exact digitChar_plain _ (by omega)
    · exact .plain hslash hquote

theorem escaped_staysInside (s : List Char) : StaysInside (s.flatMap Json.escapeChar) := by
  induction s with
  | nil => exact .nil
  | cons c s ih => exact (escapeChar_staysInside c).append ih

/-- What a value is written as in the call stands between brackets as it should, and nothing in it is
reserved. -/
structure GoodValue (v : List Char) : Prop where
  inner : Inner v
  skips : Skips v

theorem GoodValue.of_string {b : List Char} (h : StaysInside b) : GoodValue ('"' :: (b ++ ['"'])) :=
  ⟨.string h.stringBody? .nil, .of_string h.stringBody?⟩

theorem GoodValue.of_flatInner {v : List Char} (h : FlatInner v) (hnone : reservedName? (.outside .code) v = none) :
    GoodValue v :=
  ⟨h.1, .of_unquoted h.2 hnone⟩

theorem isDigits_chars {digits : List Char} (h : isDigits digits = true) :
    digits ≠ [] ∧ ∀ c ∈ digits, c.isDigit = true := by
  simpa [isDigits] using h

/-- A number is digits, or digits on both sides of a point, after a sign or none. -/
theorem isNumber_cases {cs : List Char} (h : isNumber cs = true) : ∃ digits, (cs = digits ∨ cs = '-' :: digits) ∧
    (isDigits digits = true ∨ ∃ whole fraction, digits = whole ++ '.' :: fraction ∧ isDigits whole = true ∧
      isDigits fraction = true) := by
  unfold isNumber at h
  dsimp only at h
  apply Exists.intro
  apply And.intro
  rotate_left
  · split at h
    · exact .inl h
    · next whole fraction hsplit =>
      rw [Bool.and_eq_true] at h
      exact .inr ⟨whole, fraction, splitAt?_eq_some hsplit, h⟩
  · split
    · exact .inr rfl
    · exact .inl rfl

theorem isNumber_digits {cs : List Char} (h : isNumber cs = true) :
    ∀ c ∈ cs, c.isDigit = true ∨ c = '.' ∨ c = '-' := by
  obtain ⟨digits, hsign, hdigits⟩ := isNumber_cases h
  have hall : ∀ c ∈ digits, c.isDigit = true ∨ c = '.' ∨ c = '-' := by
    intro c hc
    rcases hdigits with hdigits | ⟨whole, fraction, rfl, hwhole, hfraction⟩
    · exact .inl ((isDigits_chars hdigits).2 c hc)
    · rw [List.mem_append, List.mem_cons] at hc
      rcases hc with hc | rfl | hc
      · exact .inl ((isDigits_chars hwhole).2 c hc)
      · exact .inr (.inl rfl)
      · exact .inl ((isDigits_chars hfraction).2 c hc)
  rcases hsign with rfl | rfl
  · exact hall
  · exact List.forall_mem_cons.2 ⟨.inr (.inr rfl), hall⟩

theorem GoodValue.of_number {v : List Char} (h : isNumber v = true) : GoodValue v := by
  have hall := isNumber_digits h
  refine .of_flatInner (.of_flat fun c hc => ?_) (reservedName?_digits hall (.inl rfl))
  rcases hall c hc with hd | rfl | rfl
  · exact isFlat_of_isDigit hd
  · exact ⟨rfl, by decide⟩
  · exact ⟨rfl, by decide⟩

theorem GoodValue.of_word {v : List Char} (h : v ∈ ["true".toList, "false".toList, "none".toList]) :
    GoodValue v := by
  have hall : ∀ v ∈ ["true".toList, "false".toList, "none".toList],
      v.all Text.isNamePart = true ∧ reservedName? (.outside .code) v = none := by decide
  obtain ⟨hname, hnone⟩ := hall v h
  refine .of_flatInner (.of_flat fun c hc => ?_) hnone
  exact isFlat_of_isNamePart (List.all_eq_true.1 hname c hc)

/-- What the value of a prop may be read as. -/
theorem propSource_cases {value : List Char} {src : PropSource} (h : propSource value = .ok src) :
    (∃ text, src = .literal (Json.renderText text)) ∨ (src = .literal value ∧ isNumber value = true) ∨
      (∃ w ∈ ["true".toList, "false".toList, "none".toList], src = .literal w) ∨
      (src = .binding value ∧ isBindingPath value = true) := by
  unfold propSource at h
  split at h
  · next q r =>
    split at h
    · split at h
      · cases h
        exact .inl ⟨_, rfl⟩
      · cases h
    · split at h
      · next hnumber =>
        cases h
        exact .inr (.inl ⟨rfl, hnumber⟩)
      · split at h
        all_goals first
          | (cases h; exact .inr (.inr (.inl ⟨_, by decide, rfl⟩)))
          | skip
        split at h
        · next hpath =>
          cases h
          exact .inr (.inr (.inr ⟨rfl, hpath⟩))
        · cases h
  · cases h

theorem propSource_good {value : List Char} {src : PropSource} (h : propSource value = .ok src)
    (hfree : Unquoted value → reservedName? (.outside .code) value = none) : GoodValue src.text := by
  rcases propSource_cases h with ⟨text, rfl⟩ | ⟨rfl, hnumber⟩ | ⟨w, hw, rfl⟩ | ⟨rfl, hpath⟩
  · exact .of_string (escaped_staysInside text)
  · exact .of_number hnumber
  · exact .of_word hw
  · have hflat := isBindingPath_flatInner hpath
    exact .of_flatInner hflat (hfree hflat.2)

theorem isIdentifier_chars {n : String} (h : Text.isIdentifier n = true) :
    ∃ c w, n.toList = c :: w ∧ Text.isNameStart c = true ∧ ∀ a ∈ w, Text.isNamePart a = true := by
  unfold Text.isIdentifier at h
  split at h
  · cases h
  · next c w hn =>
    rw [Bool.and_eq_true, List.all_eq_true] at h
    exact ⟨c, w, hn, h⟩

theorem isIdentifier_quiet {key : String} (h : Text.isIdentifier key = true) :
    ∀ c ∈ key.toList, Text.isNamePart c = true := by
  obtain ⟨c, w, hkey, hc, hw⟩ := isIdentifier_chars h
  rw [hkey]
  exact List.forall_mem_cons.2 ⟨isNamePart_of_isNameStart hc, hw⟩

/-- A prop as it is written into the call. -/
structure GoodProp (key : String) (v : List Char) : Prop where
  key : ∀ c ∈ key.toList, Text.isNamePart c = true
  value : GoodValue v

/-- A prop that is read is a key, a sign and a value. -/
theorem prop_ok {word : List Char} {p : String × PropSource} (h : prop word = .ok p) :
    ∃ value, word = p.1.toList ++ '=' :: value ∧ Text.isIdentifier p.1 = true ∧ propSource value = .ok p.2 := by
  unfold prop at h
  split at h
  · cases h
  · next key value hsplit =>
    have hword := splitAt?_eq_some hsplit
    dsimp only at h
    split at h
    · cases h
    · next hkey =>
      split at h
      · cases h
      · cases hsource : propSource value with
        | error e =>
          rw [hsource] at h
          cases h
        | ok src =>
          rw [hsource] at h
          cases h
          exact ⟨value, by rw [hword, String.toList_ofList], by simpa using hkey, hsource⟩

theorem prop_good {word : List Char} {p : String × PropSource} (h : prop word = .ok p)
    (hfree : Unquoted word → reservedName? (.outside .code) word = none) : GoodProp p.1 p.2.text := by
  obtain ⟨value, rfl, hid, hsource⟩ := prop_ok h
  have hkey := isIdentifier_quiet hid
  refine ⟨hkey, propSource_good hsource fun hvalue => ?_⟩
  have hnone := hfree fun c hc => by
    simp only [List.mem_append, List.mem_cons] at hc
    rcases hc with hc | rfl | hc
    · exact (isFlat_of_isNamePart (hkey c hc)).1
    · rfl
    · exact hvalue c hc
  obtain ⟨m, hm, hrest⟩ := reservedName?_calm (fun c hc => .inl (hkey c hc)) .outside hnone
  exact reservedName?_break hm (by decide) hrest

/-- The name of a component needs no escapes. -/
def GoodName (name : String) : Prop :=
  ∀ c ∈ name.toList, Text.isNamePart c = true ∨ c = '-' ∨ c = '.'

theorem isComponentName_good {name : List Char} (h : isComponentName name = true) :
    GoodName (String.ofList name) := by
  cases name with
  | nil => cases h
  | cons c r =>
    rw [isComponentName, Bool.and_eq_true, List.all_eq_true] at h
    intro a ha
    rw [String.toList_ofList] at ha
    rcases List.mem_cons.1 ha with rfl | ha
    · exact .inl (isNamePart_of_isNameStart h.1)
    · have := h.2 a ha
      simpa [isComponentNamePart, or_assoc] using this

/-- A directive that is read is a name and props, each from a word of its own. -/
theorem parse_ok {args : List Char} {d : Directive} (h : parse args = .ok d) : ∃ word rest,
    words args = .ok (word :: rest) ∧ isComponentName d.name.toList = true ∧
      ∀ p ∈ d.props, ∃ w ∈ rest, prop w = .ok p := by
  unfold parse at h
  cases hwords : words args with
  | error e =>
    rw [hwords] at h
    cases h
  | ok ws =>
    rw [hwords] at h
    cases ws with
    | nil => cases h
    | cons word rest =>
      change (if !isComponentName ((unquoted? word).getD word) then _ else _) = _ at h
      split at h
      · cases h
      · next hname =>
        cases hrest : rest.mapM prop with
        | error e =>
          rw [hrest] at h
          cases h
        | ok props =>
          rw [hrest] at h
          cases h
          have hprops : Gives (rest.mapM prop) fun ps => ∀ p ∈ ps, ∃ w ∈ rest, prop w = .ok p :=
            .mapM fun w hw => ⟨fun p hp => ⟨w, hw, hp⟩⟩
          exact ⟨word, rest, rfl, by simpa using hname, hprops.result props hrest⟩

theorem parse_good {args : List Char} {d : Directive} (h : parse args = .ok d)
    (hnone : reservedName? (.outside .code) args = none) :
    GoodName d.name ∧ ∀ p ∈ d.props, GoodProp p.1 p.2.text := by
  obtain ⟨word, rest, hwords, hname, hprops⟩ := parse_ok h
  have hfree := words_unreserved hwords hnone
  have hgood := isComponentName_good hname
  rw [String.ofList_toList] at hgood
  refine ⟨hgood, fun p hp => ?_⟩
  obtain ⟨w, hw, hprop⟩ := hprops p hp
  exact prop_good hprop (hfree w (List.mem_cons_of_mem _ hw))

/-- Permitted props go into the call as they are written, and their paths are such as the policy permits. -/
theorem permitted_ok {policy : SecurityPolicy} {ps : List (String × PropSource)}
    {props : List (String × List Char)} (h : permitted policy ps = .ok props) :
    List.Forall₂ (fun p t => t = (p.1, p.2.text) ∧ p.2.PermittedBy policy) ps props := by
  induction ps generalizing props with
  | nil =>
    cases h
    exact .nil
  | cons q ps ih =>
    obtain ⟨key, src⟩ := q
    have hcons : ∀ {v : List Char}, (do return (key, v) :: (← permitted policy ps) :
        Except String (List (String × List Char))) = .ok props →
        ∃ more, props = (key, v) :: more ∧ permitted policy ps = .ok more := by
      intro v h
      cases hrest : permitted policy ps with
      | error e =>
        rw [hrest] at h
        cases h
      | ok more =>
        rw [hrest] at h
        cases h
        exact ⟨more, rfl, rfl⟩
    cases src with
    | literal v =>
      obtain ⟨more, rfl, hrest⟩ := hcons h
      exact .cons ⟨rfl, nofun⟩ (ih hrest)
    | binding v =>
      rw [permitted] at h
      split at h
      · next hpermitted =>
        obtain ⟨more, rfl, hrest⟩ := hcons h
        refine .cons ⟨rfl, ?_⟩ (ih hrest)
        rintro _ ⟨⟩
        exact hpermitted
      · cases h

theorem permitted_good {policy : SecurityPolicy} {ps : List (String × PropSource)}
    {props : List (String × List Char)} (h : permitted policy ps = .ok props)
    (hps : ∀ p ∈ ps, GoodProp p.1 p.2.text) : ∀ p ∈ props, GoodProp p.1 p.2 := by
  have hall := permitted_ok h
  clear h
  induction hall with
  | nil => exact nofun
  | cons hpt _ ih =>
    obtain ⟨hp, hps⟩ := List.forall_mem_cons.1 hps
    exact List.forall_mem_cons.2 ⟨hpt.1 ▸ hp, ih hps⟩

end Directive

end SecureLayout.Template
