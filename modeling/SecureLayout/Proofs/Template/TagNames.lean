import SecureLayout.Proofs.Template.Coded

/-!
Names inside a tag, for the scanner and for the lexer. Main statements: the lexer reads no reserved name
where the scanner finds none, and both take the same name for the keyword of a tag.
-/

namespace SecureLayout.Template

open Lexer (symbol? stringBody? number numberText)

/-! ### The scanner passes over words -/

/-- States of the scanner outside strings. -/
inductive Naming.Quiet : Naming → Prop
  | outside : Quiet (.outside .code)
  | name (letters : List Char) : Quiet (.name letters)
  | number : Quiet .number

theorem reservedName?_outside (c : Char) (s : List Char) :
    reservedName? (.outside .code) (c :: s) = reservedName? (Naming.start c) s := rfl

theorem start_of_quiet {c : Char} (hn : Text.isNamePart c = false) (hq : Inside.next .code c = .code) :
    Naming.start c = .outside .code := by
  have hstart : Text.isNameStart c = false := by
    cases h : Text.isNameStart c with
    | false => rfl
    | true =>
      rw [isNamePart_of_isNameStart h] at hn
      cases hn
  have hdigit : c.isDigit = false := by
    cases h : c.isDigit with
    | false => rfl
    | true =>
      rw [isNamePart_of_isDigit h] at hn
      cases hn
  rw [Naming.start, hstart, hdigit, hq]
  rfl

theorem start_calm {c : Char} (h : isCalm c) : (Naming.start c).Quiet := by
  unfold Naming.start
  split_ifs
  · exact .name _
  · exact .number
  · have hnext : Inside.next .code c = .code := by
      rw [Inside.next, h.quiet.1]
      rfl
    rw [hnext]
    exact .outside

/-- Behind a name or number the scanner is where it would be outside. -/
theorem reservedName?_break {m : Naming} (hm : m.Quiet) {c : Char} {s : List Char}
    (hc : Text.isNamePart c = false) (h : reservedName? m (c :: s) = none) :
    reservedName? (.outside .code) (c :: s) = none := by
  cases hm with
  | outside => exact h
  | name letters =>
    rw [reservedName?, hc] at h
    split at h
    · next hfalse => cases hfalse
    · split at h
      · cases h
      · exact h
  | number =>
    rw [reservedName?, hc] at h
    exact h

theorem reservedName?_calm {w b : List Char} (hw : ∀ c ∈ w, isCalm c) {m : Naming} (hm : m.Quiet)
    (h : reservedName? m (w ++ b) = none) : ∃ m' : Naming, m'.Quiet ∧ reservedName? m' b = none := by
  induction w generalizing m with
  | nil => exact ⟨m, hm, h⟩
  | cons c w ih =>
    have ih := fun {m} => ih (m := m) (fun a ha => hw a (List.mem_cons_of_mem _ ha))
    have hc := hw c List.mem_cons_self
    by_cases hp : Text.isNamePart c = true
    · cases hm with
      | outside => exact ih (start_calm hc) h
      | name letters =>
        rw [List.cons_append, reservedName?, if_pos hp] at h
        exact ih (.name _) h
      | number =>
        rw [List.cons_append, reservedName?, if_pos hp] at h
        exact ih .number h
    · exact ih (start_calm hc) (reservedName?_break hm (by simpa using hp) h)

/-- Behind the letters that follow a name or number the scanner is outside. -/
theorem reservedName?_letters {b : List Char} {m : Naming} (hm : m.Quiet) (hne : m ≠ .outside .code)
    (h : reservedName? m b = none) :
    reservedName? (.outside .code) (b.dropWhile Text.isNamePart) = none := by
  induction b generalizing m with
  | nil => rfl
  | cons c b ih =>
    by_cases hp : Text.isNamePart c = true
    · rw [List.dropWhile_cons_of_pos hp]
      cases hm with
      | outside => exact absurd rfl hne
      | name letters =>
        rw [reservedName?, if_pos hp] at h
        exact ih (.name _) (by simp) h
      | number =>
        rw [reservedName?, if_pos hp] at h
        exact ih .number (by simp) h
    · rw [List.dropWhile_cons_of_neg hp]
      exact reservedName?_break hm (by simpa using hp) h

theorem reservedName?_string {q : Char} {e : Bool} {r body rest : List Char}
    (h : stringBody? q e r = some (body, rest)) (b : List Char) :
    reservedName? (.outside (.string q e)) (body ++ q :: b) = reservedName? (.outside .code) b := by
  induction r generalizing e body with
  | nil => cases e <;> cases h
  | cons c r ih =>
    cases e with
    | true =>
      simp only [stringBody?, Option.map_eq_some_iff, Prod.exists, Prod.mk.injEq] at h
      obtain ⟨b', r', hb, rfl, rfl⟩ := h
      rw [List.cons_append, reservedName?, Inside.next, ih hb]
    | false =>
      simp only [stringBody?] at h
      split_ifs at h with hc hq
      · simp only [Option.map_eq_some_iff, Prod.exists, Prod.mk.injEq] at h
        obtain ⟨b', r', hb, rfl, rfl⟩ := h
        rw [List.cons_append, reservedName?, Inside.next, if_pos hc, ih hb]
      · cases h
        rw [List.nil_append, reservedName?, Inside.next, if_neg (hq ▸ hc), if_pos rfl]
      · simp only [Option.map_eq_some_iff, Prod.exists, Prod.mk.injEq] at h
        obtain ⟨b', r', hb, rfl, rfl⟩ := h
        rw [List.cons_append, reservedName?, Inside.next, if_neg hc, if_neg hq, ih hb]

/-- A name that the scanner reads to its end is not reserved. -/
theorem reservedName?_name {w b letters : List Char} (hw : ∀ c ∈ w, Text.isNamePart c = true)
    (hb : ∀ c r, b = c :: r → Text.isNamePart c = false)
    (h : reservedName? (.name letters) (w ++ b) = none) :
    Text.stripStart reservedBeginning (letters.reverse ++ w) = none ∧
      reservedName? (.outside .code) b = none := by
  induction w generalizing letters with
  | nil =>
    have hfinished : ∀ o : Option (List Char),
        (if o.isSome then some letters.reverse else none) = none → o = none := by
      intro o ho
      cases o with
      | none => rfl
      | some x => cases ho
    rw [List.append_nil]
    cases b with
    | nil => exact ⟨hfinished _ h, rfl⟩
    | cons c b =>
      refine ⟨?_, reservedName?_break (.name _) (hb c b rfl) h⟩
      rw [List.nil_append, reservedName?, hb c b rfl] at h
      split at h
      · next hfalse => cases hfalse
      · split at h
        · cases h
        · next hnone => exact hfinished _ hnone
  | cons c w ih =>
    rw [List.cons_append, reservedName?, if_pos (hw c List.mem_cons_self)] at h
    have := ih (fun a ha => hw a (List.mem_cons_of_mem _ ha)) h
    rwa [List.reverse_cons, List.append_assoc, List.singleton_append] at this

/-! ### Words and reserved names -/

/-- Nothing reserved is left to be found: outside names, or in letters that stand behind a number. -/
inductive Unreserved : List Char → Prop
  | outside {b : List Char} (h : reservedName? (.outside .code) b = none) : Unreserved b
  | letters {c : Char} {r : List Char} (hc : c.isAlpha = true)
      (h : reservedName? (.outside .code) ((c :: r).dropWhile Text.isNamePart) = none) : Unreserved (c :: r)

theorem isNamePart_of_isAlpha {c : Char} (h : c.isAlpha = true) : Text.isNamePart c = true :=
  isNamePart_of_isNameStart (by rw [Text.isNameStart, h]; rfl)

theorem isAlpha_of_isNamePart {c : Char} (h : Text.isNamePart c = true) (hd : c.isDigit = false)
    (hu : c ≠ '_') : c.isAlpha = true := by
  simpa [Text.isNamePart, Char.isAlphanum, hd, hu] using h

theorem stripStart_of_isAlpha {c : Char} (r : List Char) (h : c.isAlpha = true) :
    Text.stripStart reservedBeginning (c :: r) = none := by
  have hne : '_' ≠ c := by
    rintro rfl
    revert h
    decide
  exact if_neg hne

theorem dropWhile_head {p : Char → Bool} {s r : List Char} {c : Char} (h : s.dropWhile p = c :: r) :
    p c = false := by
  have hhead := List.head?_dropWhile_not p s
  rw [h] at hhead
  simpa using hhead

/-- A number goes on as long as digits and underscores follow. -/
theorem numberText_stops {p last : Lexer.NumberPart} {s cs r : List Char} {c : Char}
    (h : numberText p s = (cs, last)) (hr : s.drop cs.length = c :: r) :
    c.isDigit = false ∧ c ≠ '_' := by
  induction s generalizing p cs with
  | nil =>
    cases h
    cases hr
  | cons a s ih =>
    rw [numberText_cons] at h
    split at h
    · next hnext =>
      cases h
      cases hr
      constructor
      · cases hd : c.isDigit with
        | false => rfl
        | true =>
          exfalso
          have hsome : (last.next? c).isSome = true := by
            unfold Lexer.NumberPart.next?
            split <;> first
              | rfl
              | simp [hd]
          rw [hnext] at hsome
          cases hsome
      · rintro rfl
        cases last <;> cases hnext
    · next p' hnext =>
      cases h
      exact ih rfl hr

theorem WordAt.unreserved {s b : List Char} {t : Token} {n : Nat} (hw : WordAt s t n)
    (hnext : ∀ c r, b = c :: r → ∃ r', s.drop n = c :: r') (h : Unreserved (s.take n ++ b)) :
    Unreserved b ∧ ∀ m, t = .name m → Text.stripStart reservedBeginning m.toList = none := by
  cases hw with
  | symbol hy =>
    refine ⟨?_, (by intros; contradiction)⟩
    cases s with
    | nil => cases hy
    | cons c s =>
      have hc := mem_symbolHeads hy
      have hstart := start_of_quiet (symbolHeads_quiet c hc).1 (next_code_of_mem_symbolHeads hc)
      have hpart := (symbolHeads_quiet c hc).1
      rcases symbol?_length hy with rfl | ⟨rfl, -, c', r, rfl, hc'⟩
      · cases h with
        | outside h =>
          rw [List.take_succ_cons, List.take_zero, List.singleton_append, reservedName?_outside, hstart] at h
          exact .outside h
        | letters ha =>
          rw [isNamePart_of_isAlpha ha] at hpart
          cases hpart
      · have hin : ∀ a ∈ ['/', '*', '='], a ∈ symbolHeads := List.all_iff_forall_prop.1 (by decide)
        have hc' := hin c' hc'
        have hstart' := start_of_quiet (symbolHeads_quiet c' hc').1 (next_code_of_mem_symbolHeads hc')
        cases h with
        | outside h =>
          rw [List.take_succ_cons, List.take_succ_cons, List.take_zero, List.cons_append,
            List.singleton_append, reservedName?_outside, hstart, reservedName?_outside, hstart'] at h
          exact .outside h
        | letters ha =>
          rw [isNamePart_of_isAlpha ha] at hpart
          cases hpart
  | @string q r body rest x hq hb hx =>
    refine ⟨?_, (by intros; contradiction)⟩
    rw [(stringBody?_split hb).1, List.cons_append, List.append_assoc, List.singleton_append] at h
    have hstart : Naming.start q = .outside (.string q false) := by rcases hq with rfl | rfl <;> rfl
    generalize hs : q :: (body ++ q :: b) = s' at h
    cases h with
    | outside h =>
      rw [← hs, reservedName?_outside, hstart, reservedName?_string hb] at h
      exact .outside h
    | letters ha =>
      cases hs
      rcases hq with rfl | rfl <;> exact absurd ha (by decide)
  | @number c r t n hc hn =>
    obtain ⟨base, part, skip, cs, last, hh, ht, htok, hlen⟩ := number_eq_iff.1 hn
    refine ⟨?_, ?_⟩
    · have hcalm := number_calm hn
      obtain ⟨n, rfl⟩ : ∃ k, n = k + 1 := ⟨n - 1, by have := number_pos hc hn; omega⟩
      generalize hs : (c :: r).take (n + 1) ++ b = s' at h
      cases h with
      | outside h =>
        subst hs
        obtain ⟨m, hm, hb⟩ := reservedName?_calm hcalm .outside h
        cases b with
        | nil => exact .outside rfl
        | cons a b =>
          by_cases ha : Text.isNamePart a = true
          · obtain ⟨r', hr'⟩ := hnext a b rfl
            rw [← hlen, ← List.drop_drop] at hr'
            obtain ⟨hd, hu⟩ := numberText_stops ht hr'
            have halpha := isAlpha_of_isNamePart ha hd hu
            refine .letters halpha ?_
            rw [List.dropWhile_cons_of_pos ha]
            cases hm with
            | outside =>
              have hstart : Naming.start a = .name [a] := by
                rw [Naming.start, if_pos (by rw [Text.isNameStart, halpha]; rfl)]
              rw [reservedName?_outside, hstart] at hb
              exact reservedName?_letters (.name _) (by rintro ⟨⟩) hb
            | name letters =>
              rw [reservedName?, if_pos ha] at hb
              exact reservedName?_letters (.name _) (by rintro ⟨⟩) hb
            | number =>
              rw [reservedName?, if_pos ha] at hb
              exact reservedName?_letters .number (by rintro ⟨⟩) hb
          · exact .outside (reservedName?_break hm (by simpa using ha) hb)
      | letters ha =>
        cases hs
        have hstart := not_isNameStart_of_isDigit hc
        rw [Text.isNameStart, ha] at hstart
        cases hstart
    · rintro m rfl
      rcases number_token hn with ⟨k, hk⟩ | ⟨x, hx⟩
      · cases hk
      · cases hx
  | @name c r hc =>
    have hp := isNamePart_of_isNameStart hc
    obtain ⟨htake, hdrop⟩ := takeWhile_split Text.isNamePart (c :: r)
    have hb : ∀ a r', b = a :: r' → Text.isNamePart a = false := by
      intro a r' hb
      obtain ⟨r'', hr⟩ := hnext a r' hb
      rw [hdrop] at hr
      exact dropWhile_head hr
    have hwords : ∀ a ∈ r.takeWhile Text.isNamePart, Text.isNamePart a = true :=
      fun a ha => List.mem_takeWhile_imp ha
    rw [htake, List.takeWhile_cons_of_pos hp, List.cons_append] at h
    generalize hs : c :: (r.takeWhile Text.isNamePart ++ b) = s' at h
    have hname : Text.stripStart reservedBeginning (c :: r.takeWhile Text.isNamePart) = none ∧
        reservedName? (.outside .code) b = none := by
      cases h with
      | outside h =>
        rw [← hs, reservedName?_outside, Naming.start, if_pos hc] at h
        exact reservedName?_name hwords hb h
      | letters ha h =>
        cases hs
        refine ⟨stripStart_of_isAlpha _ ha, ?_⟩
        rw [List.dropWhile_cons_of_pos hp, List.dropWhile_append_of_pos hwords] at h
        cases b with
        | nil => rfl
        | cons a b => rwa [List.dropWhile_cons_of_neg (by simp [hb a b rfl])] at h
    refine ⟨.outside hname.2, ?_⟩
    intro m hm
    cases hm
    rw [String.toList_ofList, List.takeWhile_cons_of_pos hp]
    exact hname.1

/-- The lexer reads no reserved name in a tag where the scanner finds none. -/
theorem Coded.unreserved {kind : TagKind} {d : Nat} {s b rest : List Char} {ws : List Token} {mark : Mark}
    (h : Coded kind d s ws mark rest) (hb : body? kind .code d s = some (b, mark, rest))
    (hfree : Unreserved b) : ∀ m, .name m ∈ ws → Text.stripStart reservedBeginning m.toList = none := by
  induction h generalizing b with
  | close => exact fun _ hm => absurd hm List.not_mem_nil
  | @blank d c s rest ws mark hc h ih =>
    obtain ⟨hclose, hnext, hdepth⟩ := isTokenBlank_quiet hc
    obtain ⟨b', hb'⟩ := h.scanned
    rw [body?_code fun _ => closing?_eq_none s hclose, hnext, hdepth, hb'] at hb
    cases hb
    refine ih hb' ?_
    have hpart : Text.isNamePart c = false := by
      have hc : c = ' ' ∨ c = '\t' ∨ c = '\n' ∨ c = '\r' ∨ c = '\x0c' := by
        simpa [Text.isTokenBlank, or_assoc] using hc
      rcases hc with rfl | rfl | rfl | rfl | rfl <;> decide
    generalize hs : [c] ++ b' = s' at hfree
    cases hfree with
    | outside h =>
      rw [← hs, List.singleton_append, reservedName?_outside, start_of_quiet hpart hnext] at h
      exact .outside h
    | letters ha =>
      cases hs
      rw [isNamePart_of_isAlpha ha] at hpart
      cases hpart
  | @word d n s rest t ws mark hopen hw h ih =>
    obtain ⟨b', hb'⟩ := h.scanned
    rw [hw.passes hopen, hb'] at hb
    cases hb
    have hsource := body?_source hb'
    have hword := hw.unreserved (fun c r hc => ⟨_, by rw [hsource, hc]; rfl⟩) hfree
    intro m hm
    rcases List.mem_cons.1 hm with hm | hm
    · exact hword.2 m hm.symm
    · exact ih hb' hword.1 m hm

/-! ### Keywords -/

/-- The name that the inside of a tag begins with. -/
def leadingName (b : List Char) : List Char :=
  (Text.trimStart b).takeWhile Text.isNamePart

theorem leadingName_blank {c : Char} (b : List Char) (h : Text.isTokenBlank c = true) :
    leadingName (c :: b) = leadingName b := by
  rw [leadingName, Text.trimStart, List.dropWhile_cons_of_pos (isBlank_of_isTokenBlank h)]
  rfl

theorem leadingName_of_not_isBlank {c : Char} (b : List Char) (h : Text.isBlank c = false) :
    leadingName (c :: b) = (c :: b).takeWhile Text.isNamePart := by
  rw [leadingName, Text.trimStart, List.dropWhile_cons_of_neg (by simp [h])]

/-- A name at the beginning of a tag is its keyword, and the other way round. -/
theorem Coded.leadingName_iff {kind : TagKind} {d : Nat} {s b rest : List Char} {ws : List Token}
    {mark : Mark} (h : Coded kind d s ws mark rest) (hb : body? kind .code d s = some (b, mark, rest))
    {c : Char} (hc : Text.isNameStart c = true) (r : List Char) :
    leadingName b = c :: r ↔ ∃ ws', ws = .name (String.ofList (c :: r)) :: ws' := by
  induction h generalizing b with
  | @close s rest mark h =>
    have hnil : b = [] := by
      cases s with
      | nil => cases h
      | cons a s =>
        rw [body?, if_pos rfl, h] at hb
        cases hb
        rfl
    subst hnil
    exact ⟨(by rintro ⟨⟩), (by rintro ⟨_, ⟨⟩⟩)⟩
  | @blank d a s rest ws mark ha h ih =>
    obtain ⟨hclose, hnext, hdepth⟩ := isTokenBlank_quiet ha
    obtain ⟨b', hb'⟩ := h.scanned
    rw [body?_code fun _ => closing?_eq_none s hclose, hnext, hdepth, hb'] at hb
    cases hb
    rw [← ih hb', ← leadingName_blank b' ha]
    rfl
  | @word d n s rest t ws mark hopen hw h ih =>
    obtain ⟨b', hb'⟩ := h.scanned
    rw [hw.passes hopen, hb'] at hb
    cases hb
    obtain ⟨a, s, rfl, ha⟩ := hw.head
    obtain ⟨v, hv⟩ : ∃ v, (a :: s).take n = a :: v := by
      cases n with
      | zero => exact absurd hw.pos (Nat.lt_irrefl 0)
      | succ n => exact ⟨_, rfl⟩
    rw [hv, List.cons_append, leadingName_of_not_isBlank _ ha]
    have hother : Text.isNameStart a = false → ¬ (∃ m, t = .name m) →
        ((a :: (v ++ b')).takeWhile Text.isNamePart = c :: r ↔
          ∃ ws', t :: ws = .name (String.ofList (c :: r)) :: ws') := by
      intro hstart hname
      constructor
      · intro htake
        by_cases hp : Text.isNamePart a = true
        · rw [List.takeWhile_cons_of_pos hp] at htake
          cases htake
          rw [hc] at hstart
          cases hstart
        · rw [List.takeWhile_cons_of_neg hp] at htake
          cases htake
      · rintro ⟨ws', hws⟩
        cases hws
        exact absurd ⟨_, rfl⟩ hname
    have hsource := body?_source hb'
    generalize hs : a :: s = s' at hw hv hsource
    cases hw with
    | @symbol s' y n hy =>
      subst hs
      refine hother ?_ (by rintro ⟨_, ⟨⟩⟩)
      cases hstart : Text.isNameStart a with
      | false => rfl
      | true =>
        have hp := isNamePart_of_isNameStart hstart
        rw [(symbolHeads_quiet a (mem_symbolHeads hy)).1] at hp
        cases hp
    | @string q r' body rest' x hq =>
      cases hs
      refine hother ?_ (by rintro ⟨_, ⟨⟩⟩)
      rcases hq with rfl | rfl <;> decide
    | @number a' r' t n ha' hn =>
      cases hs
      refine hother (not_isNameStart_of_isDigit ha') ?_
      rcases number_token hn with ⟨k, rfl⟩ | ⟨x, rfl⟩ <;> rintro ⟨_, ⟨⟩⟩
    | @name a' r' ha' =>
      cases hs
      obtain ⟨htake, hdrop⟩ := takeWhile_split Text.isNamePart (a :: s)
      rw [htake] at hv
      rw [hdrop] at hsource
      have hall : ∀ x ∈ a :: v, Text.isNamePart x = true := by
        rw [← hv]
        exact fun x hx => List.mem_takeWhile_imp hx
      have hend : b'.takeWhile Text.isNamePart = [] := by
        cases b' with
        | nil => rfl
        | cons x b' => exact List.takeWhile_cons_of_neg (by simp [dropWhile_head hsource])
      rw [hv, ← List.cons_append, List.takeWhile_append_of_pos hall, hend, List.append_nil]
      constructor
      · intro h
        exact ⟨ws, by rw [h]⟩
      · rintro ⟨ws', hws⟩
        exact String.ofList_injective (Token.name.inj (List.cons.inj hws).1)

end SecureLayout.Template
