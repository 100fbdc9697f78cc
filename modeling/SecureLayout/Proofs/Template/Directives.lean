import SecureLayout.Proofs.Template.Expanded
import SecureLayout.Proofs.Template.Written

/-!
Component directives as they are written: a name, props, blanks and signs. Main statements: the scanner finds such a
directive where it is written, `WrittenDirective.Valid.isScanned` and `WrittenDirective.Valid.reserved?`, and reads it
as it was meant, `WrittenDirective.Valid.replacement`.
-/

namespace SecureLayout.Template

open Directive Lexer

/-! ### Texts that a tag holds -/

/-- The scanner of tags goes over the text, whatever follows. -/
def Passes (w : List Char) : Prop :=
  ∀ s, body? .block .code 0 (w ++ s) = (body? .block .code 0 s).map (prepend w)

theorem Passes.nil : Passes [] :=
  fun s => by rw [map_prepend_nil, List.nil_append]

theorem Passes.append {u w : List Char} (hu : Passes u) (hw : Passes w) : Passes (u ++ w) := by
  intro s
  rw [List.append_assoc, hu, hw, map_prepend_append]

theorem Passes.char {c : Char} (hflat : isFlat c) (hc : c ∉ ['-', '+', '%', '\x7d']) : Passes [c] := by
  intro s
  rw [List.singleton_append, body?_code fun _ => closing?_eq_none s hc, hflat.next, hflat.depth]

theorem Passes.of_chars {w : List Char} (h : ∀ c ∈ w, isFlat c ∧ c ∉ ['-', '+', '%', '\x7d']) : Passes w := by
  induction w with
  | nil => exact .nil
  | cons c w ih =>
    obtain ⟨⟨hflat, hc⟩, hw⟩ := List.forall_mem_cons.1 h
    exact (Passes.char hflat hc).append (ih hw)

theorem isNamePart_passes {c : Char} (h : Text.isNamePart c = true) : isFlat c ∧ c ∉ ['-', '+', '%', '\x7d'] := by
  refine ⟨isFlat_of_isNamePart h, fun hmem => ?_⟩
  have hpart : ∀ c ∈ ['-', '+', '%', '\x7d'], Text.isNamePart c = false := List.all_iff_forall_prop.1 (by decide)
  rw [hpart c hmem] at h
  cases h

theorem isBlank_passes {c : Char} (h : Text.isBlank c = true) : isFlat c ∧ c ∉ ['-', '+', '%', '\x7d'] := by
  have hblank : ∀ c ∈ '"' :: '\'' :: (brackets ++ ['-', '+', '%', '\x7d']), Text.isBlank c = false :=
    List.all_iff_forall_prop.1 (by decide)
  have hne : c ∉ '"' :: '\'' :: (brackets ++ ['-', '+', '%', '\x7d']) := fun hmem => by
    rw [hblank c hmem] at h
    cases h
  simp only [List.mem_cons, List.mem_append, not_or] at hne
  refine ⟨⟨?_, hne.2.2.1⟩, by simpa using hne.2.2.2⟩
  simp [Inside.isQuote, hne.1, hne.2.1]

theorem Passes.blanks {b : List Char} (hb : Blanks b) : Passes b :=
  .of_chars fun c hc => isBlank_passes (hb c hc)

theorem Passes.inQuotes {q : Char} (hq : q = '"' ∨ q = '\'') (t : List Char) : Passes (inQuotes q t) := by
  intro s
  have hslash : q ≠ '\\' := by rcases hq with rfl | rfl <;> decide
  have hclose : q ∉ ['-', '+', '%', '\x7d'] := by rcases hq with rfl | rfl <;> decide
  have hnext : Inside.next .code q = .string q false := by rcases hq with rfl | rfl <;> rfl
  have hdepth : bracketDepth 0 q = 0 := by rcases hq with rfl | rfl <;> rfl
  rw [Template.inQuotes, List.cons_append, List.append_assoc, List.singleton_append,
    body?_code fun _ => closing?_eq_none _ hclose, hnext, hdepth, body?_string (stringBody?_quotedBody hslash t s),
    map_prepend_append]
  rfl

theorem body?_closed {kind : TagKind} {s rest : List Char} {mark : Mark} (h : closing? kind s = some (mark, rest)) :
    body? kind .code 0 s = some ([], mark, rest) := by
  cases s with
  | nil => cases h
  | cons c s => rw [body?, if_pos rfl, h]

/-- Text without quotes and blanks that holds nothing reserved. -/
structure IsBare (w : List Char) : Prop where
  chars : ∀ c ∈ w, Inside.isQuote c = false ∧ Text.isBlank c = false
  passes : Passes w
  free : reservedName? (.outside .code) w = none

theorem reservedName?_nameParts {w letters : List Char} (hw : ∀ a ∈ w, Text.isNamePart a = true) :
    reservedName? (.name letters) w = (Naming.name (w.reverse ++ letters)).reserved? := by
  induction w generalizing letters with
  | nil => rfl
  | cons c w ih =>
    obtain ⟨hc, hw⟩ := List.forall_mem_cons.1 hw
    rw [reservedName?, if_pos hc, ih hw, List.reverse_cons, List.append_assoc, List.singleton_append]

theorem IsPlainName.isBare {n : String} (h : IsPlainName n) : IsBare n.toList := by
  have hopen := h.isOpen
  obtain ⟨c, w, hcs, hc, hw⟩ := h.chars
  have hall : ∀ a ∈ n.toList, Text.isNamePart a = true := by
    rw [hcs]
    exact List.forall_mem_cons.2 ⟨isNamePart_of_isNameStart hc, hw⟩
  refine ⟨fun a ha => ⟨(isFlat_of_isNamePart (hall a ha)).1, not_isBlank_of_isNamePart (hall a ha)⟩,
    .of_chars fun a ha => isNamePart_passes (hall a ha), ?_⟩
  have hstart : Naming.start c = .name [c] := by rw [Naming.start, hc, if_pos rfl]
  rw [IsOpenName, hcs] at hopen
  rw [hcs, reservedName?_outside, hstart, reservedName?_nameParts hw, Naming.reserved?, List.reverse_append,
    List.reverse_reverse]
  change (if (Text.stripStart reservedBeginning (c :: w)).isSome then _ else _) = none
  rw [hopen]
  rfl

theorem IsBare.of_number {w : List Char} (hw : ∀ c ∈ w, c.isDigit = true ∨ c = '-')
    (hend : ∀ u, w ≠ u ++ ['-']) : IsBare w := by
  have hcalm : ∀ c ∈ w, isCalm c := fun c hc => by
    rcases hw c hc with hd | rfl
    · exact .inl (isNamePart_of_isDigit hd)
    · exact .inr (by decide)
  refine ⟨fun c hc => ?_, fun s => body?_calm s hcalm ?_, reservedName?_digits (fun c hc => ?_) (.inl rfl)⟩
  · rcases hw c hc with hd | rfl
    · exact ⟨(isFlat_of_isDigit hd).1, not_isBlank_of_isNamePart (isNamePart_of_isDigit hd)⟩
    · decide
  · rintro u a (rfl | rfl) rfl
    · rcases hw '+' (by simp) with hd | hd <;> cases hd
    · exact hend u rfl
  · rcases hw c hc with hd | hd
    · exact .inl hd
    · exact .inr (.inr hd)

theorem IsBare.append_stop {u w : List Char} {c : Char} (hu : IsBare u) (hflat : isFlat c)
    (hc : c ∉ ['-', '+', '%', '\x7d']) (hblank : Text.isBlank c = false) (hpart : Text.isNamePart c = false)
    (hw : IsBare w) : IsBare (u ++ c :: w) := by
  refine ⟨fun a ha => ?_, hu.passes.append ((Passes.char hflat hc).append hw.passes), ?_⟩
  · rcases List.mem_append.1 ha with ha | ha
    · exact hu.chars a ha
    · rcases List.mem_cons.1 ha with rfl | ha
      · exact ⟨hflat.1, hblank⟩
      · exact hw.chars a ha
  · refine Skips.of_unquoted (fun a ha => (hu.chars a ha).1) hu.free _ ?_ ?_
    · rintro a s h
      obtain ⟨rfl, -⟩ := List.cons.inj h
      exact hpart
    · rw [reservedName?_outside, start_of_quiet hpart hflat.next]
      exact hw.free

theorem isDigits_isBare {digits : List Char} (h : isDigits digits = true) : IsBare digits := by
  have hdigits := (isDigits_chars h).2
  refine .of_number (fun c hc => .inl (hdigits c hc)) ?_
  rintro u rfl
  cases hdigits '-' (by simp)

theorem IsBare.item {u digits : List Char} (hu : IsBare u) (hdigits : isDigits digits = true) :
    IsBare (u ++ '[' :: (digits ++ [']'])) := by
  have hbare := isDigits_isBare hdigits
  have hall := (isDigits_chars hdigits).2
  refine ⟨fun a ha => ?_, hu.passes.append fun s => ?_, ?_⟩
  · simp only [List.mem_append, List.mem_cons, List.not_mem_nil, or_false] at ha
    rcases ha with ha | rfl | ha | rfl
    · exact hu.chars a ha
    · decide
    · exact hbare.chars a ha
    · decide
  · have hinner : Inner digits := .of_flat fun c hc => isFlat_of_isDigit (hall c hc)
    change body? .block .code 0 ('[' :: (digits ++ [']'] ++ s)) = _
    rw [body?_code fun _ => closing?_eq_none _ (by decide), List.append_assoc]
    change (body? .block .code (0 + 1) (digits ++ ']' :: s)).map _ = _
    rw [hinner.body?, body?_deep, map_prepend_append, map_prepend_append]
    rfl
  · have hskips := Skips.of_unquoted (fun a ha => (hbare.chars a ha).1) hbare.free
    refine Skips.of_unquoted (fun a ha => (hu.chars a ha).1) hu.free _ ?_ ?_
    · rintro a s h
      obtain ⟨rfl, -⟩ := List.cons.inj h
      rfl
    · refine hskips [']'] ?_ rfl
      rintro a s h
      obtain ⟨rfl, -⟩ := List.cons.inj h
      rfl

variable {p : SecurityPolicy} {data v : Json.Value} {source path : List Char}

theorem Resolves.isBare (h : Resolves data path v) : IsBare path := by
  induction h with
  | root hn => exact hn.isBare
  | member h hn hw ih => exact ih.append_stop ⟨rfl, by decide⟩ (by decide) (by decide) (by decide) hn.isBare
  | item h hdigits hword hw ih => exact ih.item hdigits

/-- A value is a text in quotes, or holds neither quotes nor blanks. -/
theorem Denotes.form (h : Denotes p data source v) :
    (∃ q t, (q = '"' ∨ q = '\'') ∧ source = inQuotes q t) ∨ IsBare source := by
  have hname : ∀ n ∈ ["true", "True", "false", "False", "none", "None", "null"], IsPlainName n := by
    have hall : ∀ n ∈ ["true", "True", "false", "False", "none", "None", "null"],
        Text.isIdentifier n = true ∧ Text.stripStart reservedBeginning n.toList = none :=
      List.all_iff_forall_prop.1 (by decide)
    exact fun n hn => ⟨(hall n hn).1, (hall n hn).2⟩
  cases h with
  | text hq t => exact .inl ⟨_, _, hq, rfl⟩
  | integer hdigits hword => exact .inr (isDigits_isBare hdigits)
  | @negative digits hdigits hword =>
    obtain ⟨hne, hall⟩ := isDigits_chars hdigits
    refine .inr (.of_number (fun c hc => ?_) ?_)
    · rcases List.mem_cons.1 hc with rfl | hc
      · exact .inr rfl
      · exact .inl (hall c hc)
    · intro u hu
      cases u with
      | nil => exact hne (List.cons.inj hu).2
      | cons a u =>
        have hmem : '-' ∈ digits := by
          rw [(List.cons.inj hu).2]
          exact List.mem_append_right _ List.mem_cons_self
        cases hall _ hmem
  | @bool w b hw =>
    have hmem : w ∈ ["true", "True", "false", "False"] := List.mem_map_of_mem (f := Prod.fst) hw
    exact .inr (hname w (List.mem_append_left ["none", "None", "null"] hmem)).isBare
  | null hw => exact .inr (hname _ (List.mem_append_right ["true", "True", "false", "False"] hw)).isBare
  | binding h => exact .inr h.isBare

/-! ### The scanner of names -/

theorem Skips.inQuotes {q : Char} (hq : q = '"' ∨ q = '\'') (t : List Char) : Skips (inQuotes q t) := by
  intro r _ hnone
  have hslash : q ≠ '\\' := by rcases hq with rfl | rfl <;> decide
  have hstart : Naming.start q = .outside (.string q false) := by rcases hq with rfl | rfl <;> rfl
  rw [Template.inQuotes, List.cons_append, List.append_assoc, List.singleton_append, reservedName?_outside, hstart,
    reservedName?_string (stringBody?_quotedBody hslash t r)]
  exact hnone

theorem IsBare.skips {w : List Char} (h : IsBare w) : Skips w :=
  .of_unquoted (fun a ha => (h.chars a ha).1) h.free

/-- Nothing reserved is found behind characters of no name. -/
theorem reservedName?_quiet {w s : List Char}
    (hw : ∀ c ∈ w, Text.isNamePart c = false ∧ Inside.next .code c = .code) :
    reservedName? (.outside .code) (w ++ s) = reservedName? (.outside .code) s := by
  induction w with
  | nil => rfl
  | cons c w ih =>
    obtain ⟨⟨hpart, hnext⟩, hw⟩ := List.forall_mem_cons.1 hw
    rw [List.cons_append, reservedName?_outside, start_of_quiet hpart hnext, ih hw]

theorem isBlank_quiet {c : Char} (h : Text.isBlank c = true) :
    Text.isNamePart c = false ∧ Inside.next .code c = .code := by
  refine ⟨?_, (isBlank_passes h).1.next⟩
  cases hpart : Text.isNamePart c with
  | false => rfl
  | true =>
    rw [not_isBlank_of_isNamePart hpart] at h
    cases h

theorem Denotes.passes (h : Denotes p data source v) : Passes source := by
  rcases h.form with ⟨q, t, hq, rfl⟩ | hbare
  · exact .inQuotes hq t
  · exact hbare.passes

theorem Denotes.skips (h : Denotes p data source v) : Skips source := by
  rcases h.form with ⟨q, t, hq, rfl⟩ | hbare
  · exact .inQuotes hq t
  · exact hbare.skips

/-! ### The reader of words -/

namespace Directive

/-- The text is one word, or goes on with one. -/
def Whole (w : List Char) : Prop :=
  ∀ done current, w.foldl Words.step ⟨done, current, none, false⟩ = ⟨done, w.reverse ++ current, none, false⟩

theorem Whole.append {u w : List Char} (hu : Whole u) (hw : Whole w) : Whole (u ++ w) := by
  intro done current
  rw [List.foldl_append, hu, hw, List.reverse_append, List.append_assoc]

theorem Whole.of_chars {w : List Char} (h : ∀ c ∈ w, Inside.isQuote c = false ∧ Text.isBlank c = false) : Whole w := by
  induction w with
  | nil => exact fun _ _ => rfl
  | cons c w ih =>
    obtain ⟨⟨hquote, hblank⟩, hw⟩ := List.forall_mem_cons.1 h
    intro done current
    have hstep : Words.step ⟨done, current, none, false⟩ c = ⟨done, c :: current, none, false⟩ := by
      have hne : ¬(decide (c = '"') || decide (c = '\'')) = true := by simpa [Inside.isQuote] using hquote
      rw [Words.step]
      dsimp only
      rw [if_neg hne, hblank, if_neg Bool.false_ne_true]
    rw [List.foldl_cons, hstep, ih hw, List.reverse_cons, List.append_assoc]
    rfl

theorem Whole.inQuotes {q : Char} (hq : q = '"' ∨ q = '\'') (t : List Char) : Whole (inQuotes q t) := by
  have hslash : q ≠ '\\' := by rcases hq with rfl | rfl <;> decide
  have hbody : ∀ done current, (quotedBody q t).foldl Words.step ⟨done, current, some q, false⟩ =
      ⟨done, (quotedBody q t).reverse ++ current, some q, false⟩ := by
    induction t with
    | nil => exact fun _ _ => rfl
    | cons c t ih =>
      intro done current
      have hcons : quotedBody q (c :: t) = quotedChar q c ++ quotedBody q t := rfl
      rw [hcons, List.foldl_append, List.reverse_append, List.append_assoc]
      unfold quotedChar
      split
      · have hescaped : ['\\', c].foldl Words.step ⟨done, current, some q, false⟩ =
            ⟨done, c :: '\\' :: current, some q, false⟩ := rfl
        rw [hescaped, ih]
        rfl
      · next hc =>
        obtain ⟨hne, hend⟩ := not_or.1 hc
        have hstep : [c].foldl Words.step ⟨done, current, some q, false⟩ = ⟨done, c :: current, some q, false⟩ := by
          rw [List.foldl_cons, List.foldl_nil, Words.step]
          dsimp only
          rw [if_neg Bool.false_ne_true, if_neg hne, if_neg hend]
        rw [hstep, ih]
        rfl
  intro done current
  have hopen : Words.step ⟨done, current, none, false⟩ q = ⟨done, q :: current, some q, false⟩ := by
    rw [Words.step]
    dsimp only
    rw [if_pos (quote_iff.2 hq)]
  have hclose : ∀ current, Words.step ⟨done, current, some q, false⟩ q = ⟨done, q :: current, none, false⟩ := by
    intro current
    rw [Words.step]
    dsimp only
    rw [if_neg Bool.false_ne_true, if_neg hslash, if_pos rfl]
  rw [Template.inQuotes, List.foldl_cons, hopen, List.foldl_append, hbody, List.foldl_cons, hclose, List.foldl_nil]
  simp

/-- Blanks end a word. -/
theorem foldl_blanks {b : List Char} (hb : Blanks b) (done : List (List Char)) (current : List Char) :
    b.foldl Words.step ⟨done, current, none, false⟩ =
      if b = [] then ⟨done, current, none, false⟩ else Words.finish ⟨done, current, none, false⟩ := by
  have hstep : ∀ c, Text.isBlank c = true → ∀ w : Words, w.quote = none → w.step c = w.finish := by
    intro c hc w hw
    have hne : ¬(decide (c = '"') || decide (c = '\'')) = true := by
      rw [quote_iff]
      rintro (rfl | rfl) <;> cases hc
    rw [Words.step, hw]
    dsimp only
    rw [if_neg hne, if_pos hc]
  have hfinish : ∀ w : Words, w.quote = none → w.finish.quote = none ∧ w.finish.finish = w.finish := by
    intro w hw
    unfold Words.finish
    split
    · exact ⟨hw, rfl⟩
    · exact ⟨hw, rfl⟩
  cases b with
  | nil => rfl
  | cons c b =>
    obtain ⟨hc, hrest⟩ := List.forall_mem_cons.1 hb
    rw [if_neg (List.cons_ne_nil c b), List.foldl_cons, hstep c hc _ rfl]
    obtain ⟨hquote, hsame⟩ := hfinish ⟨done, current, none, false⟩ rfl
    clear hb
    induction b with
    | nil => rfl
    | cons a b ih =>
      obtain ⟨ha, hrest⟩ := List.forall_mem_cons.1 hrest
      rw [List.foldl_cons, hstep a ha _ hquote, hsame, ih hrest]

theorem finish_of_ne_nil {done : List (List Char)} {current : List Char} (h : current ≠ []) :
    Words.finish ⟨done, current, none, false⟩ = ⟨current.reverse :: done, [], none, false⟩ := by
  rw [Words.finish, if_neg (by simpa using h)]

/-- A list of words, each with blanks before it. -/
theorem foldl_words {ws : List (List Char × List Char)} {after : List Char}
    (hws : ∀ w ∈ ws, Blanks w.1 ∧ w.1 ≠ [] ∧ Whole w.2 ∧ w.2 ≠ []) (hafter : Blanks after) (done : List (List Char))
    {current : List Char} (hcurrent : current ≠ []) :
    ∃ w : Words, (ws.flatMap (fun w => w.1 ++ w.2) ++ after).foldl Words.step ⟨done, current, none, false⟩ = w ∧
      w.quote = none ∧ w.finish.done = (ws.map (·.2)).reverse ++ current.reverse :: done := by
  induction ws generalizing done current with
  | nil =>
    refine ⟨_, rfl, ?_⟩
    rw [List.flatMap_nil, List.nil_append, foldl_blanks hafter]
    split
    · exact ⟨rfl, by rw [finish_of_ne_nil hcurrent]; rfl⟩
    · rw [finish_of_ne_nil hcurrent]
      exact ⟨rfl, rfl⟩
  | cons w ws ih =>
    obtain ⟨⟨hblanks, hgap, hwhole, hne⟩, hws⟩ := List.forall_mem_cons.1 hws
    have hne' : w.2.reverse ++ [] ≠ [] := by simpa using hne
    obtain ⟨w', hw', hquote, hdone⟩ := ih hws (current.reverse :: done) hne'
    refine ⟨w', ?_, hquote, ?_⟩
    · rw [← hw', List.flatMap_cons, List.append_assoc, List.append_assoc, List.foldl_append, foldl_blanks hblanks,
        if_neg hgap, finish_of_ne_nil hcurrent, List.foldl_append, hwhole]
    · rw [hdone]
      simp

theorem words_eq {gap word after : List Char} {ws : List (List Char × List Char)} (hgap : Blanks gap)
    (hword : Whole word) (hne : word ≠ []) (hws : ∀ w ∈ ws, Blanks w.1 ∧ w.1 ≠ [] ∧ Whole w.2 ∧ w.2 ≠ [])
    (hafter : Blanks after) :
    words (gap ++ (word ++ (ws.flatMap (fun w => w.1 ++ w.2) ++ after))) = .ok (word :: ws.map (·.2)) := by
  have hstart : (⟨[], [], none, false⟩ : Words).finish = ⟨[], [], none, false⟩ := rfl
  have hne' : word.reverse ++ [] ≠ [] := by simpa using hne
  obtain ⟨w, hw, hquote, hdone⟩ := foldl_words hws hafter [] hne'
  have hall : (gap ++ (word ++ (ws.flatMap (fun w => w.1 ++ w.2) ++ after))).foldl Words.step {} = w := by
    rw [List.foldl_append, foldl_blanks hgap, hstart, ite_self, List.foldl_append, hword, hw]
  rw [words, hall, hquote, hdone]
  simp

end Directive

/-! ### Directives -/

/-- A prop of a directive with the blanks in front of it, and what it denotes. -/
structure WrittenProp where
  gap : List Char
  key : String
  source : List Char
  value : Json.Value

/-- `key=value`. -/
def WrittenProp.word (q : WrittenProp) : List Char :=
  q.key.toList ++ '=' :: q.source

structure WrittenProp.Valid (p : SecurityPolicy) (data : Json.Value) (q : WrittenProp) : Prop where
  blanks : Blanks q.gap
  apart : q.gap ≠ []
  key : IsPlainName q.key
  value : Denotes p data q.source q.value

/-- A directive as it is written between `\x7b%` and `%\x7d`. -/
structure WrittenDirective where
  lead : Mark
  before : List Char
  gap : List Char
  /-- The quote on both sides of the name, if there is one. -/
  quote : Option Char
  name : String
  props : List WrittenProp
  after : List Char
  trail : Mark

namespace WrittenDirective

def nameWord (d : WrittenDirective) : List Char :=
  match d.quote with
  | some q => q :: (d.name.toList ++ [q])
  | none => d.name.toList

/-- What comes after the keyword. -/
def args (d : WrittenDirective) : List Char :=
  d.gap ++ (d.nameWord ++ (d.props.flatMap (fun q => q.gap ++ q.word) ++ d.after))

def tag (d : WrittenDirective) : Tag :=
  ⟨.block, d.lead, d.before ++ ("component".toList ++ d.args), d.trail⟩

/-- The props as the placeholder carries them. -/
def payload (d : WrittenDirective) : Json.Value :=
  .ofMembers (d.props.map fun q => (q.key, q.value))

end WrittenDirective

/-- Wherever the beginning of a reserved name stands in the text, it goes on a name that began before. -/
def IsOpenText (w : List Char) : Prop :=
  ∀ pre post, w = pre ++ (reservedBeginning ++ post) → ∃ u c, pre = u ++ [c] ∧ Text.isNamePart c = true

/-- A directive that names a component of the policy and of the registry, whose props denote something. -/
structure WrittenDirective.Valid (p : SecurityPolicy) (registry : Option Component.Registry) (data : Json.Value)
    (d : WrittenDirective) : Prop where
  before : Blanks d.before
  gap : Blanks d.gap
  after : Blanks d.after
  name : isComponentName d.name.toList = true
  quoted : ∀ q ∈ d.quote, q = '"' ∨ q = '\''
  /-- A name without quotes stands apart from the keyword and holds nothing reserved, and its last hyphen is not taken
  for a sign of the tag. -/
  bare : d.quote = none → d.gap ≠ [] ∧ IsOpenText d.name.toList ∧ (d.trail = .none → ∀ u, d.tag.body ≠ u ++ ['-'])
  allowed : p.validateComponent d.name = true
  registered : ∀ r ∈ registry, r.contains d.name = true
  distinct : (d.props.map (·.key)).Nodup
  props : ∀ q ∈ d.props, q.Valid p data

/-! ### Names without quotes -/

/-- Where the scanner of names may be behind a text: outside names, in one that began there, or in a number. -/
def Naming.Behind (pre : List Char) : Naming → Prop
  | outside i => i = .code ∧ ∀ u c, pre = u ++ [c] → Text.isNamePart c = false
  | name letters => ∃ u, pre = u ++ letters.reverse ∧ ∀ v c, u = v ++ [c] → Text.isNamePart c = false
  | number => True

/-- A name that ends here is not reserved. -/
theorem IsOpenText.reserved? {pre post : List Char} {m : Naming} (h : IsOpenText (pre ++ post)) (hm : m.Behind pre) :
    m.reserved? = none := by
  cases m with
  | outside i => rfl
  | number => rfl
  | name letters =>
    obtain ⟨u, rfl, hu⟩ := hm
    rw [Naming.reserved?, ite_eq_right_iff]
    intro hsome
    obtain ⟨r, hr⟩ := Option.isSome_iff_exists.1 hsome
    rw [Text.stripStart_eq_some hr, List.append_assoc, List.append_assoc] at h
    obtain ⟨v, c, rfl, hc⟩ := h u _ rfl
    rw [hu v c rfl] at hc
    cases hc

/-- A name begins where none goes on. -/
theorem Naming.Behind.start {pre : List Char} {c : Char} (hquote : Inside.isQuote c = false)
    (hnew : ∀ u a, pre = u ++ [a] → Text.isNamePart a = true → Text.isNamePart c = false) :
    (Naming.start c).Behind (pre ++ [c]) := by
  have hnext : Inside.next .code c = .code := by rw [Inside.next, hquote]; rfl
  unfold Naming.start
  split_ifs with hc hd
  · refine ⟨pre, rfl, fun v a hv => ?_⟩
    cases ha : Text.isNamePart a with
    | false => rfl
    | true =>
      have hpart := hnew v a hv ha
      rw [isNamePart_of_isNameStart hc] at hpart
      cases hpart
  · trivial
  · refine ⟨hnext, fun u a hu => ?_⟩
    obtain ⟨rfl, hca⟩ := List.append_inj' hu rfl
    obtain rfl : c = a := by simpa using hca
    simp only [Text.isNamePart, Text.isNameStart, Char.isAlphanum, Bool.or_eq_true, not_or, Bool.not_eq_true] at hc hd ⊢
    simp [hc, hd]

theorem IsOpenText.none_behind {pre post : List Char} {m : Naming} (h : IsOpenText (pre ++ post)) (hm : m.Behind pre)
    (hpost : Unquoted post) : reservedName? m post = none := by
  induction post generalizing pre m with
  | nil =>
    have hnone := h.reserved? hm
    cases m <;> exact hnone
  | cons c post ih =>
    obtain ⟨hc, hpost⟩ := List.forall_mem_cons.1 hpost
    have hnone := h.reserved? hm
    rw [List.append_cons] at h
    have hgo := fun {m : Naming} (hm : m.Behind (pre ++ [c])) => ih h hm hpost
    cases m with
    | outside i =>
      obtain ⟨rfl, hlast⟩ := hm
      refine hgo (.start hc fun u a hu ha => ?_)
      rw [hlast u a hu] at ha
      cases ha
    | number =>
      rw [reservedName?]
      split
      · exact hgo (m := .number) trivial
      · next hpart => exact hgo (.start hc fun _ _ _ _ => by simpa using hpart)
    | name letters =>
      rw [reservedName?]
      split
      · obtain ⟨u, rfl, hu⟩ := hm
        exact hgo (m := .name (c :: letters)) ⟨u, by simp, hu⟩
      · next hpart =>
        rw [hnone]
        exact hgo (.start hc fun _ _ _ _ => by simpa using hpart)

theorem IsOpenText.free {w : List Char} (h : IsOpenText w) (hw : Unquoted w) :
    reservedName? (.outside .code) w = none := by
  have hstart : (Naming.outside .code).Behind [] := ⟨rfl, fun u c hu => by cases u <;> cases hu⟩
  have hall : IsOpenText ([] ++ w) := h
  exact hall.none_behind hstart hw

/-! ### A written directive is read -/

theorem WrittenProp.Valid.whole {q : WrittenProp} (h : q.Valid p data) : Whole q.word := by
  have hkey : Whole q.key.toList := .of_chars h.key.isBare.chars
  have heq : Whole ['='] := .of_chars (by simp [Inside.isQuote, Text.isBlank])
  rcases h.value.form with ⟨a, t, ha, hsource⟩ | hsource
  · have hvalue : Whole q.source := hsource ▸ .inQuotes ha t
    exact hkey.append (heq.append hvalue)
  · exact hkey.append (heq.append (.of_chars hsource.chars))

theorem Denotes.ne_nil (h : Denotes p data source v) : source ≠ [] := by
  rintro rfl
  obtain ⟨src, hsrc, -⟩ := h.propSource
  cases hsrc

theorem WrittenProp.Valid.prop {q : WrittenProp} (h : q.Valid p data) : ∃ src, prop q.word = .ok (q.key, src) ∧
    Means data src.text q.value ∧ src.PermittedBy p := by
  obtain ⟨src, hsrc, hmeans, hpermitted⟩ := h.value.propSource
  refine ⟨src, ?_, hmeans, hpermitted⟩
  rw [Directive.prop, WrittenProp.word, splitAt?_append (h.key.free rfl)]
  dsimp only
  rw [String.ofList_toList, h.key.identifier]
  cases hs : q.source with
  | nil => exact absurd hs h.value.ne_nil
  | cons c r =>
    rw [hs] at hsrc
    rw [hsrc]
    rfl

namespace WrittenDirective

variable {registry : Option Component.Registry} {d : WrittenDirective}

theorem Valid.name_chars (h : d.Valid p registry data) : ∃ c r, d.name.toList = c :: r ∧ Text.isNameStart c = true ∧
    ∀ a ∈ d.name.toList, isCalm a ∧ Inside.isQuote a = false ∧ Text.isBlank a = false ∧ a ∉ ['\\', '+'] := by
  have hname := h.name
  cases hn : d.name.toList with
  | nil =>
    rw [hn] at hname
    cases hname
  | cons c r =>
    have hgood := isComponentName_good hname
    rw [hn, isComponentName, Bool.and_eq_true] at hname
    refine ⟨c, r, rfl, hname.1, fun a ha => ?_⟩
    rw [GoodName, String.toList_ofList, hn] at hgood
    rcases hgood a ha with hpart | rfl | rfl
    · refine ⟨.inl hpart, (isFlat_of_isNamePart hpart).1, not_isBlank_of_isNamePart hpart, fun hmem => ?_⟩
      have hnone : ∀ c ∈ ['\\', '+'], Text.isNamePart c = false := List.all_iff_forall_prop.1 (by decide)
      rw [hnone a hmem] at hpart
      cases hpart
    · exact ⟨.inr (by decide), by decide, by decide, by decide⟩
    · exact ⟨.inr (by decide), by decide, by decide, by decide⟩

/-- Nothing in a name needs a backslash. -/
theorem Valid.nameWord_quoted (h : d.Valid p registry data) {q : Char} (hq : d.quote = some q) :
    d.nameWord = inQuotes q d.name.toList := by
  obtain ⟨-, -, -, -, hchars⟩ := h.name_chars
  have hquote : Inside.isQuote q = true := by rcases h.quoted q hq with rfl | rfl <;> rfl
  have hbody : quotedBody q d.name.toList = d.name.toList.flatMap fun c => [c] := by
    refine List.flatMap_congr fun c hc => ?_
    obtain ⟨-, hplain, -, hslash⟩ := hchars c hc
    refine if_neg ?_
    rintro (rfl | rfl)
    · exact hslash List.mem_cons_self
    · rw [hplain] at hquote
      cases hquote
  rw [nameWord, hq, inQuotes, hbody, List.flatMap_singleton']

theorem Valid.nameWord_whole (h : d.Valid p registry data) : Whole d.nameWord ∧ d.nameWord ≠ [] := by
  obtain ⟨c, r, hn, -, hchars⟩ := h.name_chars
  cases hq : d.quote with
  | some q =>
    rw [h.nameWord_quoted hq]
    exact ⟨.inQuotes (h.quoted q hq) _, List.cons_ne_nil _ _⟩
  | none =>
    rw [nameWord, hq]
    exact ⟨.of_chars fun a ha => ⟨(hchars a ha).2.1, (hchars a ha).2.2.1⟩, by rw [hn]; exact List.cons_ne_nil c r⟩

theorem Valid.unquoted? (h : d.Valid p registry data) : (unquoted? d.nameWord).getD d.nameWord = d.name.toList := by
  obtain ⟨c, r, hn, hc, -⟩ := h.name_chars
  cases hq : d.quote with
  | some q =>
    have hquote := quote_iff.2 (h.quoted q hq)
    have hlast : (c :: r ++ [q]).getLast? = some q := List.getLast?_concat
    have hfront : (c :: r ++ [q]).dropLast = c :: r := List.dropLast_concat
    rw [nameWord, hq]
    dsimp only
    rw [hn]
    change (if (decide (q = '"') || decide (q = '\'')) && (c :: r ++ [q]).getLast? = some q then
      some (c :: r ++ [q]).dropLast else none).getD _ = _
    rw [hquote, hlast, hfront, Bool.true_and, if_pos (decide_eq_true rfl)]
    rfl
  | none =>
    have hquote := mt quote_iff.1 (ne_quote_of_isNamePart (isNamePart_of_isNameStart hc))
    rw [nameWord, hq]
    dsimp only
    rw [hn]
    cases r with
    | nil => rfl
    | cons a r =>
      rw [Directive.unquoted?, if_neg (fun hboth => hquote ((Bool.and_eq_true _ _).mp hboth).1)]
      rfl

theorem Valid.words (h : d.Valid p registry data) :
    words d.args = .ok (d.nameWord :: d.props.map WrittenProp.word) := by
  obtain ⟨hwhole, hne⟩ := h.nameWord_whole
  have hws : ∀ w ∈ d.props.map fun q => (q.gap, q.word), Blanks w.1 ∧ w.1 ≠ [] ∧ Whole w.2 ∧ w.2 ≠ [] := by
    refine List.forall_mem_map.2 fun q hq => ?_
    have hvalid := h.props q hq
    exact ⟨hvalid.blanks, hvalid.apart, hvalid.whole, by simp [WrittenProp.word]⟩
  have hwords := words_eq h.gap hwhole hne hws h.after
  rw [List.flatMap_map, List.map_map] at hwords
  exact hwords

/-- The directive is read as it was meant, and replaced by a call with texts that denote its props. -/
theorem Valid.replacement (h : d.Valid p registry data) : ∃ dir texts, Directive.parse d.args = .ok dir ∧
    dir.replacement p registry = .call d.name texts ∧
    List.Forall₂ (fun q t => t.1 = q.key ∧ Means data t.2 q.value) d.props texts := by
  have hprops : ∀ ps : List WrittenProp, (∀ q ∈ ps, q.Valid p data) → ∃ srcs texts,
      (ps.map WrittenProp.word).mapM prop = .ok srcs ∧ permitted p srcs = .ok texts ∧
      List.Forall₂ (fun q t => t.1 = q.key ∧ Means data t.2 q.value) ps texts := by
    intro ps
    induction ps with
    | nil => exact fun _ => ⟨[], [], rfl, rfl, .nil⟩
    | cons q ps ih =>
      intro hps
      obtain ⟨hq, hps⟩ := List.forall_mem_cons.1 hps
      obtain ⟨srcs, texts, hmap, hpermitted, hall⟩ := ih hps
      obtain ⟨src, hprop, hmeans, hpath⟩ := hq.prop
      refine ⟨(q.key, src) :: srcs, (q.key, src.text) :: texts, ?_, ?_, .cons ⟨rfl, hmeans⟩ hall⟩
      · rw [List.map_cons, List.mapM_cons, hprop, hmap]
        rfl
      · cases src with
        | literal w =>
          rw [permitted, hpermitted]
          rfl
        | binding path =>
          rw [permitted, if_pos (hpath path rfl), hpermitted]
          rfl
  obtain ⟨srcs, texts, hmap, hpermitted, hall⟩ := hprops d.props h.props
  refine ⟨⟨d.name, srcs⟩, texts, ?_, ?_, hall⟩
  · have hname : isComponentName ((Directive.unquoted? d.nameWord).getD d.nameWord) = true := by
      rw [h.unquoted?]
      exact h.name
    rw [Directive.parse, h.words]
    change (if !isComponentName ((Directive.unquoted? d.nameWord).getD d.nameWord) then _ else _) = _
    rw [hname, hmap, h.unquoted?, String.ofList_toList]
    rfl
  · have hregistered : (registry.any fun r => !r.contains d.name) = false := by
      cases registry with
      | none => rfl
      | some r => simp [h.registered r rfl]
    rw [Directive.replacement, h.allowed, hregistered, hpermitted]
    rfl

/-! ### A written directive is found -/

/-- What comes after the keyword begins with a blank or a quote. -/
theorem Valid.args_head (h : d.Valid p registry data) : ∃ c r, d.args = c :: r ∧ Text.isNamePart c = false := by
  cases hgap : d.gap with
  | cons c b =>
    have hblank := h.gap c (by rw [hgap]; exact List.mem_cons_self)
    refine ⟨c, _, by rw [args, hgap, List.cons_append], ?_⟩
    cases hpart : Text.isNamePart c with
    | false => rfl
    | true =>
      rw [not_isBlank_of_isNamePart hpart] at hblank
      cases hblank
  | nil =>
    cases hq : d.quote with
    | none => exact absurd hgap (h.bare hq).1
    | some q =>
      refine ⟨q, _, by rw [args, hgap, nameWord, hq]; rfl, ?_⟩
      rcases h.quoted q hq with rfl | rfl <;> rfl

theorem Valid.trimStart (h : d.Valid p registry data) :
    Text.trimStart d.tag.body = "component".toList ++ d.args :=
  trimStart_of_split h.before rfl ("omponent".toList ++ d.args)

theorem Valid.keyword (h : d.Valid p registry data) : d.tag.keyword = "component".toList ∧ d.tag.args = d.args := by
  have hname : ∀ c ∈ "component".toList, Text.isNamePart c = true := List.all_iff_forall_prop.1 (by decide)
  obtain ⟨c, r, hargs, hc⟩ := h.args_head
  have hstop : ¬Text.isNamePart c = true := by rw [hc]; exact Bool.false_ne_true
  constructor
  · rw [Tag.keyword, h.trimStart, List.takeWhile_append_of_pos hname, hargs, List.takeWhile_cons_of_neg hstop,
      List.append_nil]
  · rw [Tag.args, h.trimStart, List.dropWhile_append_of_pos hname, hargs, List.dropWhile_cons_of_neg hstop]

theorem Valid.role (h : d.Valid p registry data) : d.tag.role = .directive := by
  have hkind : d.tag.kind = .block := rfl
  rw [Tag.role, hkind, h.keyword.1]
  rfl

/-- What comes after the name: nothing, or a blank and text that the scanners go over. -/
theorem passes_props {ps : List WrittenProp} {after : List Char} (hps : ∀ q ∈ ps, q.Valid p data)
    (hafter : Blanks after) : (∀ c r, ps.flatMap (fun q => q.gap ++ q.word) ++ after = c :: r → Text.isBlank c = true) ∧
      Passes (ps.flatMap (fun q => q.gap ++ q.word) ++ after) ∧
      reservedName? (.outside .code) (ps.flatMap (fun q => q.gap ++ q.word) ++ after) = none := by
  induction ps with
  | nil =>
    refine ⟨fun c r h => hafter c ?_, .blanks hafter, ?_⟩
    · rw [List.flatMap_nil, List.nil_append] at h
      rw [h]
      exact List.mem_cons_self
    · have hquiet := reservedName?_quiet (s := []) fun c hc => isBlank_quiet (hafter c hc)
      rw [List.append_nil] at hquiet
      exact hquiet
  | cons q ps ih =>
    obtain ⟨hq, hps⟩ := List.forall_mem_cons.1 hps
    obtain ⟨hhead, hpasses, hfree⟩ := ih hps
    have hsplit : (q :: ps).flatMap (fun q => q.gap ++ q.word) ++ after =
        q.gap ++ (q.key.toList ++ ('=' :: (q.source ++ (ps.flatMap (fun q => q.gap ++ q.word) ++ after)))) := by
      simp [WrittenProp.word]
    rw [hsplit]
    refine ⟨fun c r h => ?_, ?_, ?_⟩
    · obtain ⟨b, g, hg⟩ := List.exists_cons_of_ne_nil hq.apart
      rw [hg, List.cons_append] at h
      obtain ⟨rfl, -⟩ := List.cons.inj h
      exact hq.blanks b (by rw [hg]; exact List.mem_cons_self)
    · have hequals : Passes ['='] := .char ⟨rfl, by decide⟩ (by decide)
      exact (Passes.blanks hq.blanks).append (hq.key.isBare.passes.append (hequals.append
        (hq.value.passes.append hpasses)))
    · rw [reservedName?_quiet fun c hc => isBlank_quiet (hq.blanks c hc)]
      refine hq.key.isBare.skips _ ?_ ?_
      · rintro a s h
        obtain ⟨rfl, -⟩ := List.cons.inj h
        rfl
      · rw [reservedName?_outside, start_of_quiet rfl rfl]
        refine hq.value.skips _ (fun a s h => ?_) hfree
        have hblank := hhead a s h
        cases hpart : Text.isNamePart a with
        | false => rfl
        | true =>
          rw [not_isBlank_of_isNamePart hpart] at hblank
          cases hblank

/-- The scanner of tags goes over the name, if no hyphen at its end stands before the delimiter. -/
theorem Valid.nameWord_body? (h : d.Valid p registry data) {s : List Char}
    (hs : d.quote = none → ∀ u c r, d.name.toList = u ++ ['-'] → s = c :: r → c ∉ ['%', '\x7d']) :
    body? .block .code 0 (d.nameWord ++ s) = (body? .block .code 0 s).map (prepend d.nameWord) := by
  obtain ⟨-, -, -, -, hchars⟩ := h.name_chars
  cases hq : d.quote with
  | some q =>
    rw [h.nameWord_quoted hq]
    exact Passes.inQuotes (h.quoted q hq) _ s
  | none =>
    have hname : d.nameWord = d.name.toList := by rw [nameWord, hq]
    rw [hname]
    refine body?_calm_before (fun c hc => (hchars c hc).1) ?_
    rintro u a c r (rfl | rfl) hu hcr
    · exact absurd (by simp) (hchars '+' (by rw [hu]; simp)).2.2.2
    · exact hs hq u c r hu hcr

theorem Valid.isScanned (h : d.Valid p registry data) : d.tag.IsScanned := by
  obtain ⟨hhead, hpasses, -⟩ := passes_props h.props h.after
  refine ⟨fun rest => leadMark_of_source fun _ c r hcr => ?_, fun rest => ?_⟩
  · rw [Tag.inner_append] at hcr
    change d.before ++ ("component".toList ++ d.args) ++ _ = _ at hcr
    cases hb : d.before with
    | nil =>
      rw [hb] at hcr
      obtain ⟨rfl, -⟩ := List.cons.inj hcr
      exact ⟨by decide, by decide⟩
    | cons b bs =>
      rw [hb] at hcr
      obtain ⟨rfl, -⟩ := List.cons.inj hcr
      have hout := (isBlank_passes (h.before b (by rw [hb]; exact List.mem_cons_self))).2
      simp only [List.mem_cons, not_or] at hout
      exact ⟨hout.1, hout.2.1⟩
  · have hname := h.nameWord_body? (s := d.props.flatMap (fun q => q.gap ++ q.word) ++ d.after ++
        (d.trail.source ++ '%' :: '\x7d' :: rest)) ?_
    · have hletters : ∀ c ∈ "component".toList, Text.isNamePart c = true := List.all_iff_forall_prop.1 (by decide)
      have hkeyword : Passes "component".toList := .of_chars fun c hc => isNamePart_passes (hletters c hc)
      have hclosed := body?_closed (closing?_of_source .block d.trail rest)
      have hbody : d.tag.inner ++ rest = d.before ++ ("component".toList ++ (d.gap ++ (d.nameWord ++
          (d.props.flatMap (fun q => q.gap ++ q.word) ++ d.after ++ (d.trail.source ++ '%' :: '\x7d' :: rest))))) := by
        rw [Tag.inner_append]
        simp [tag, args, TagKind.closes]
      rw [hbody]
      change body? .block .code 0 _ = _
      rw [Passes.blanks h.before, hkeyword, Passes.blanks h.gap, hname, hpasses]
      change (((((body? .block .code 0 (d.trail.source ++ TagKind.block.closes :: '\x7d' :: rest)).map _).map _).map
        _).map _).map _ = _
      rw [hclosed]
      simp [prepend, tag, args]
    · intro hq u c r hu hcr
      cases hs : d.props.flatMap (fun q => q.gap ++ q.word) ++ d.after with
      | cons a s =>
        rw [hs] at hcr
        obtain ⟨rfl, -⟩ := List.cons.inj hcr
        have hout := (isBlank_passes (hhead a s hs)).2
        exact fun hmem => hout (List.mem_append_right ['-', '+'] hmem)
      | nil =>
        rw [hs, List.nil_append] at hcr
        cases hm : d.trail with
        | none =>
          have hbody : d.tag.body = d.before ++ ("component".toList ++ (d.gap ++ u)) ++ ['-'] := by
            simp [tag, args, hs, nameWord, hq, hu]
          exact absurd hbody ((h.bare hq).2.2 hm _)
        | minus =>
          rw [hm] at hcr
          obtain ⟨rfl, -⟩ := List.cons.inj hcr
          decide
        | plus =>
          rw [hm] at hcr
          obtain ⟨rfl, -⟩ := List.cons.inj hcr
          decide

theorem Valid.reserved? (h : d.Valid p registry data) : d.tag.reserved? = none := by
  obtain ⟨hhead, -, hfree⟩ := passes_props h.props h.after
  obtain ⟨-, -, -, -, hchars⟩ := h.name_chars
  have hkeyword : Skips "component".toList := .of_unquoted (List.all_iff_forall_prop.1 (by decide)) (by decide)
  have hname : Skips d.nameWord := by
    cases hq : d.quote with
    | some q =>
      rw [h.nameWord_quoted hq]
      exact .inQuotes (h.quoted q hq) _
    | none =>
      have hplain : Unquoted d.name.toList := fun c hc => (hchars c hc).2.1
      rw [nameWord, hq]
      exact .of_unquoted hplain ((h.bare hq).2.1.free hplain)
  rw [Tag.reserved?]
  change reservedName? (.outside .code) (d.before ++ ("component".toList ++ d.args)) = none
  rw [reservedName?_quiet fun c hc => isBlank_quiet (h.before c hc)]
  refine hkeyword _ ?_ ?_
  · rintro a s hs
    obtain ⟨c, r, hargs, hc⟩ := h.args_head
    rw [hs] at hargs
    obtain ⟨rfl, -⟩ := List.cons.inj hargs
    exact hc
  · rw [args, reservedName?_quiet fun c hc => isBlank_quiet (h.gap c hc)]
    exact hname _ (fun a s hs => (isBlank_quiet (hhead a s hs)).1) hfree

end WrittenDirective

end SecureLayout.Template
