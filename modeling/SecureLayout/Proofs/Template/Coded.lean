import SecureLayout.Proofs.Template.Words

/-!
The inside of a tag as the lexer reads it. Main statements: where the lexer ends a tag the scanner ends it
too, and what the lexer reads there does not depend on what follows the tag.
-/

namespace SecureLayout.Template

open Lexer (symbol? stringBody? number)

/-! ### Closing delimiters -/

theorem closing?_of_source (kind : TagKind) (mark : Mark) (rest : List Char) :
    closing? kind (mark.source ++ kind.closes :: '\x7d' :: rest) = some (mark, rest) := by
  cases mark <;> cases kind <;> rfl

theorem closing?_iff {kind : TagKind} {s rest : List Char} {mark : Mark} :
    closing? kind s = some (mark, rest) ↔ s = mark.source ++ kind.closes :: '\x7d' :: rest :=
  ⟨closing?_source, fun h => by rw [h, closing?_of_source]⟩

theorem closes_mem (kind : TagKind) : kind.closes ∈ ['%', '\x7d'] := by
  cases kind <;> decide

/-- A closing delimiter begins with a sign or with its own character. -/
theorem closing?_eq_none {kind : TagKind} {c : Char} (s : List Char)
    (h : c ∉ ['-', '+', '%', '\x7d']) : closing? kind (c :: s) = none := by
  cases hc : closing? kind (c :: s) with
  | none => rfl
  | some p =>
    have hs := closing?_source hc
    have hk := closes_mem kind
    generalize p.1 = mark at hs
    cases mark <;> simp only [Mark.source, List.nil_append, List.cons_append, List.cons.injEq] at hs <;>
      obtain ⟨rfl, -⟩ := hs <;> simp at h hk
    tauto

/-- Behind a sign the delimiter itself must stand. -/
theorem closing?_sign_eq_none {kind : TagKind} {c c' : Char} (s : List Char)
    (hc : c = '-' ∨ c = '+') (h : c' ∉ ['%', '\x7d']) : closing? kind (c :: c' :: s) = none := by
  cases hc' : closing? kind (c :: c' :: s) with
  | none => rfl
  | some p =>
    have hs := closing?_source hc'
    have hk := closes_mem kind
    generalize p.1 = mark at hs
    cases mark <;> simp only [Mark.source, List.nil_append, List.cons_append, List.cons.injEq] at hs
    · obtain ⟨rfl, -⟩ := hs
      rcases hc with hc | hc <;> rw [hc] at hk <;> exact absurd hk (by decide)
    · obtain ⟨-, rfl, -⟩ := hs
      exact absurd hk h
    · obtain ⟨-, rfl, -⟩ := hs
      exact absurd hk h

/-- Three characters tell whether a delimiter stands here. -/
theorem closing?_local {kind : TagKind} {v : List Char} (y y' : List Char) (h : 3 ≤ v.length)
    (hn : closing? kind (v ++ y) = none) : closing? kind (v ++ y') = none := by
  cases hc : closing? kind (v ++ y') with
  | none => rfl
  | some p =>
    have hs := closing?_source hc
    have hlen : (p.1.source ++ [kind.closes, '\x7d']).length ≤ v.length := by
      cases p.1 <;> simp [Mark.source] <;> omega
    have hsplit : v ++ y' = (p.1.source ++ [kind.closes, '\x7d']) ++ p.2 := by
      rw [hs]
      simp
    have hv : v = p.1.source ++ [kind.closes, '\x7d'] ++ v.drop (p.1.source ++ [kind.closes, '\x7d']).length := by
      have htake := congrArg (List.take (p.1.source ++ [kind.closes, '\x7d']).length) hsplit
      rw [List.take_append_of_le_length hlen, List.take_left'  rfl] at htake
      conv_lhs => rw [← List.take_append_drop (p.1.source ++ [kind.closes, '\x7d']).length v, htake]
    have hsome : closing? kind (v ++ y) =
        some (p.1, v.drop (p.1.source ++ [kind.closes, '\x7d']).length ++ y) := by
      rw [closing?_iff]
      conv_lhs => rw [hv]
      simp
    rw [hn] at hsome
    cases hsome

/-! ### Words pass through the scanner -/

/-- What a reader of a tag found, behind more characters. -/
def prepend (w : List Char) : List Char × Mark × List Char → List Char × Mark × List Char :=
  fun (b, r) => (w ++ b, r)

theorem map_prepend_nil (o : Option (List Char × Mark × List Char)) : o.map (prepend []) = o := by
  cases o <;> rfl

theorem map_prepend_append (w v : List Char) (o : Option (List Char × Mark × List Char)) :
    (o.map (prepend v)).map (prepend w) = o.map (prepend (w ++ v)) := by
  cases o with
  | none => rfl
  | some p => simp [prepend]

theorem body?_code {kind : TagKind} {d : Nat} {c : Char} {s : List Char}
    (h : d = 0 → closing? kind (c :: s) = none) :
    body? kind .code d (c :: s) =
      (body? kind (Inside.next .code c) (bracketDepth d c) s).map (prepend [c]) := by
  have hnone : (if d = 0 then closing? kind (c :: s) else none) = none := by
    split
    · next hd => exact h hd
    · rfl
  rw [body?, hnone]
  rfl

theorem body?_string {kind : TagKind} {q : Char} {e : Bool} {d : Nat} {r body rest : List Char}
    (h : stringBody? q e r = some (body, rest)) :
    body? kind (.string q e) d r = (body? kind .code d rest).map (prepend (body ++ [q])) := by
  induction r generalizing e body with
  | nil => cases e <;> cases h
  | cons c r ih =>
    have hcons : ∀ w : List Char, ∀ o : Option (List Char × Mark × List Char),
        (o.map (prepend w)).map (fun x => (c :: x.1, x.2)) = o.map (prepend (c :: w)) := by
      intro w o
      cases o <;> rfl
    rw [body?]
    cases e with
    | true =>
      simp only [stringBody?, Option.map_eq_some_iff, Prod.exists, Prod.mk.injEq] at h
      obtain ⟨b, r', hb, rfl, rfl⟩ := h
      rw [Inside.next, ih hb]
      exact hcons _ _
    | false =>
      simp only [stringBody?] at h
      split_ifs at h with hc hq
      · simp only [Option.map_eq_some_iff, Prod.exists, Prod.mk.injEq] at h
        obtain ⟨b, r', hb, rfl, rfl⟩ := h
        rw [Inside.next, if_pos hc, ih hb]
        exact hcons _ _
      · cases h
        rw [Inside.next, if_neg hc, if_pos hq, hq]
        rfl
      · simp only [Option.map_eq_some_iff, Prod.exists, Prod.mk.injEq] at h
        obtain ⟨b, r', hb, rfl, rfl⟩ := h
        rw [Inside.next, if_neg hc, if_neg hq, ih hb]
        exact hcons _ _

/-- Characters of names and numbers. -/
def isCalm (c : Char) : Prop :=
  Text.isNamePart c = true ∨ c ∈ ['.', '+', '-']

theorem isCalm.quiet {c : Char} (h : isCalm c) :
    Inside.isQuote c = false ∧ (∀ d, bracketDepth d c = d) ∧ c ∉ ['%', '\x7d'] := by
  have hne : ∀ a : Char, ¬ isCalm a → c ≠ a := by
    rintro a ha rfl
    exact ha h
  have hcalm : ∀ a ∈ ['"', '\'', '(', ')', '[', ']', '\x7b', '\x7d', '%'], ¬ isCalm a := by
    unfold isCalm
    exact List.all_iff_forall_prop.1 (by decide)
  have hall : ∀ a ∈ ['"', '\'', '(', ')', '[', ']', '\x7b', '\x7d', '%'], c ≠ a :=
    fun a ha => hne a (hcalm a ha)
  simp only [List.mem_cons, List.not_mem_nil, or_false, forall_eq_or_imp, forall_eq] at hall
  refine ⟨?_, ?_, ?_⟩
  · simp only [Inside.isQuote, Bool.or_eq_false_iff, beq_eq_false_iff_ne]
    exact ⟨hall.1, hall.2.1⟩
  · intro d
    simp [bracketDepth, hall]
  · simp [hall]

/-- Names and numbers pass; a sign at their end could close a tag. -/
theorem body?_calm_before {kind : TagKind} {d : Nat} {w s : List Char} (hw : ∀ c ∈ w, isCalm c)
    (hsign : ∀ v a c r, a = '+' ∨ a = '-' → w = v ++ [a] → s = c :: r → c ∉ ['%', '\x7d']) :
    body? kind .code d (w ++ s) = (body? kind .code d s).map (prepend w) := by
  induction w with
  | nil => rw [map_prepend_nil, List.nil_append]
  | cons c w ih =>
    have hc := hw c List.mem_cons_self
    obtain ⟨hquote, hdepth, hclose⟩ := hc.quiet
    have hopen : closing? kind (c :: (w ++ s)) = none := by
      by_cases hs : c = '-' ∨ c = '+'
      · cases w with
        | nil =>
          cases s with
          | nil => rcases hs with rfl | rfl <;> rfl
          | cons c' r => exact closing?_sign_eq_none _ hs (hsign [] c c' r hs.symm rfl rfl)
        | cons c' w =>
          exact closing?_sign_eq_none _ hs
            (hw c' (List.mem_cons_of_mem _ List.mem_cons_self)).quiet.2.2
      · refine closing?_eq_none _ ?_
        simp only [List.mem_cons, List.not_mem_nil, or_false, not_or] at hclose hs ⊢
        exact ⟨hs.1, hs.2, hclose.1, hclose.2⟩
    rw [List.cons_append, body?_code fun _ => hopen, hdepth]
    have hnext : Inside.next .code c = .code := by
      rw [Inside.next, hquote]
      rfl
    rw [hnext, ih (fun a ha => hw a (List.mem_cons_of_mem _ ha)), map_prepend_append]
    · rfl
    · exact fun v a b r ha hv hs => hsign (c :: v) a b r ha (by rw [hv]; rfl) hs

theorem body?_calm {kind : TagKind} {d : Nat} {w : List Char} (s : List Char)
    (hw : ∀ c ∈ w, isCalm c) (hsign : ∀ v a, a = '+' ∨ a = '-' → w ≠ v ++ [a]) :
    body? kind .code d (w ++ s) = (body? kind .code d s).map (prepend w) :=
  body?_calm_before hw fun v a _ _ ha hv => absurd hv (hsign v a ha)

/-- The depth of brackets after a word that begins here. -/
def depthAfter (depth : Nat) (t : Token) (s : List Char) : Nat :=
  match t with
  | .symbol _ => bracketDepth depth (s.head?.getD ' ')
  | _ => depth

theorem next_code_of_mem_symbolHeads {c : Char} (h : c ∈ symbolHeads) : Inside.next .code c = .code := by
  obtain ⟨-, hq, hq'⟩ := symbolHeads_quiet c h
  simp [Inside.next, Inside.isQuote, hq, hq']

theorem number_calm {s : List Char} {t : Except String Token} {n : Nat} (h : number s = (t, n)) :
    ∀ c ∈ s.take n, isCalm c := by
  obtain ⟨base, part, skip, cs, last, hh, ht, -, rfl⟩ := number_eq_iff.1 h
  have hcs : (s.drop skip).take cs.length = cs := by
    conv_lhs => rw [numberText_eq ht]
    simp
  intro c hc
  rw [List.take_add, hcs, List.mem_append] at hc
  rcases hc with hc | hc
  · have hskip := numberHead_skip s
    rw [hh] at hskip
    rcases hskip with hskip | ⟨hskip, a, r, rfl, ha⟩ <;> dsimp only at hskip <;> subst hskip
    · cases hc
    · have hall : ∀ a ∈ ['0', 'b', 'B', 'o', 'O', 'x', 'X'], Text.isNamePart a = true := List.all_iff_forall_prop.1 (by decide)
      simp only [List.take_succ_cons, List.take_zero, List.mem_cons, List.not_mem_nil, or_false] at hc
      rcases hc with rfl | rfl
      · exact .inl (by decide)
      · exact .inl (hall _ (List.mem_cons_of_mem _ ha))
  · exact numberText_chars ht c hc

/-- A word passes through the scanner. -/
theorem WordAt.passes {kind : TagKind} {d : Nat} {s : List Char} {t : Token} {n : Nat}
    (h : WordAt s t n) (hopen : d = 0 → closing? kind s = none) :
    body? kind .code d s = (body? kind .code (depthAfter d t s) (s.drop n)).map (prepend (s.take n)) := by
  cases h with
  | symbol hy =>
    cases s with
    | nil => cases hy
    | cons c s =>
      have hnext := next_code_of_mem_symbolHeads (mem_symbolHeads hy)
      rcases symbol?_length hy with rfl | ⟨rfl, hc, c', r, rfl, hc'⟩
      · rw [body?_code hopen, hnext]
        rfl
      · have hopen' : closing? kind (c' :: r) = none := by
          have hout : ∀ a ∈ ['/', '*', '='], a ∉ ['-', '+', '%', '\x7d'] := List.all_iff_forall_prop.1 (by decide)
          exact closing?_eq_none r (hout c' hc')
        have hquiet : ∀ a ∈ ['/', '*', '=', '!', '>', '<'],
            Inside.next .code a = .code ∧ bracketDepth d a = d := by
          simp only [List.forall_mem_cons]
          refine ⟨?_, ?_, ?_, ?_, ?_, ?_, by simp⟩ <;> exact ⟨rfl, by simp [bracketDepth]⟩
        have hin : ∀ a ∈ ['/', '*', '='], a ∈ ['/', '*', '=', '!', '>', '<'] := List.all_iff_forall_prop.1 (by decide)
        rw [body?_code hopen, hnext, (hquiet c hc).2, body?_code fun _ => hopen',
          (hquiet c' (hin c' hc')).1, (hquiet c' (hin c' hc')).2, map_prepend_append]
        simp [depthAfter, (hquiet c hc).2]
  | @string q r body rest x hq hb hx =>
    have hnext : Inside.next .code q = .string q false := by rcases hq with rfl | rfl <;> rfl
    have hdepth : bracketDepth d q = d := by rcases hq with rfl | rfl <;> simp [bracketDepth]
    obtain ⟨htake, hdrop⟩ := stringBody?_split hb
    rw [body?_code hopen, hnext, hdepth, body?_string hb, map_prepend_append, htake, hdrop]
    rfl
  | @number c r t n hc hn =>
    have hdepth : depthAfter d t (c :: r) = d := by
      rcases number_token hn with ⟨k, rfl⟩ | ⟨x, rfl⟩ <;> rfl
    rw [hdepth, ← body?_calm _ (number_calm hn) (fun v a ha => number_sign ha hn),
      List.take_append_drop]
  | @name c r hc =>
    have htake := (takeWhile_split Text.isNamePart (c :: r)).1
    change _ = (body? kind .code d _).map _
    rw [← body?_calm, List.take_append_drop]
    · intro a ha
      rw [htake] at ha
      exact .inl (List.mem_takeWhile_imp ha)
    · intro v a ha hv
      rw [htake] at hv
      have hmem : a ∈ (c :: r).takeWhile Text.isNamePart := by
        rw [hv]
        simp
      have hpart := List.mem_takeWhile_imp hmem
      rcases ha with rfl | rfl <;> revert hpart <;> decide

/-! ### Reading to the end of a tag -/

/-- The lexer reads the inside of a tag from here on, at some depth of brackets: its words, the sign at
its end, and what follows it. -/
inductive Coded (kind : TagKind) : Nat → List Char → List Token → Mark → List Char → Prop
  | close {s rest : List Char} {mark : Mark} (h : closing? kind s = some (mark, rest)) :
      Coded kind 0 s [] mark rest
  | blank {d : Nat} {c : Char} {s rest : List Char} {ws : List Token} {mark : Mark}
      (hc : Text.isTokenBlank c = true) (h : Coded kind d s ws mark rest) :
      Coded kind d (c :: s) ws mark rest
  | word {d n : Nat} {s rest : List Char} {t : Token} {ws : List Token} {mark : Mark}
      (hopen : d = 0 → closing? kind s = none) (hw : WordAt s t n)
      (h : Coded kind (depthAfter d t s) (s.drop n) ws mark rest) : Coded kind d s (t :: ws) mark rest

variable {kind : TagKind} {d n : Nat} {s rest : List Char} {t : Token} {ws : List Token} {mark : Mark}

theorem isTokenBlank_quiet {c : Char} (h : Text.isTokenBlank c = true) :
    c ∉ ['-', '+', '%', '\x7d'] ∧ Inside.next .code c = .code ∧ ∀ d, bracketDepth d c = d := by
  have hc : c = ' ' ∨ c = '\t' ∨ c = '\n' ∨ c = '\r' ∨ c = '\x0c' := by
    simpa [Text.isTokenBlank, or_assoc] using h
  rcases hc with rfl | rfl | rfl | rfl | rfl <;>
    exact ⟨by decide, by decide, fun d => by simp [bracketDepth]⟩

/-- The scanner ends a tag where the lexer does. -/
theorem Coded.scanned (h : Coded kind d s ws mark rest) :
    ∃ b, body? kind .code d s = some (b, mark, rest) := by
  induction h with
  | @close s rest mark h =>
    refine ⟨[], ?_⟩
    cases s with
    | nil => cases h
    | cons c s => rw [body?, if_pos rfl, h]
  | @blank d c s rest ws mark hc h ih =>
    obtain ⟨b, hb⟩ := ih
    obtain ⟨hclose, hnext, hdepth⟩ := isTokenBlank_quiet hc
    refine ⟨c :: b, ?_⟩
    rw [body?_code fun _ => closing?_eq_none s hclose, hnext, hdepth, hb]
    rfl
  | word hopen hw h ih =>
    obtain ⟨b, hb⟩ := ih
    exact ⟨_, by rw [hw.passes hopen, hb]; rfl⟩

/-- What is read in a tag does not depend on what follows the tag. -/
theorem Coded.local (h : Coded kind d s ws mark rest) :
    ∃ u, 2 ≤ u.length ∧ s = u ++ rest ∧ ∀ rest', Coded kind d (u ++ rest') ws mark rest' := by
  induction h with
  | @close s rest mark h =>
    refine ⟨mark.source ++ [kind.closes, '\x7d'], ?_, ?_, fun rest' => .close ?_⟩
    · simp
    · rw [closing?_source h]
      simp
    · rw [closing?_iff]
      simp
  | @blank d c s rest ws mark hc h ih =>
    obtain ⟨u, hu, rfl, hlocal⟩ := ih
    exact ⟨c :: u, by simp; omega, rfl, fun rest' => .blank hc (hlocal rest')⟩
  | @word d n s rest t ws mark hopen hw h ih =>
    obtain ⟨u, hu, hs, hlocal⟩ := ih
    have hpos := hw.pos
    have hn : n ≤ s.length := by
      by_contra hlt
      rw [List.drop_eq_nil_of_le (by omega)] at hs
      have := congrArg List.length hs
      simp at this
      omega
    obtain ⟨w, hwn, rfl⟩ : ∃ w, w.length = n ∧ s = w ++ (u ++ rest) :=
      ⟨s.take n, by simp; omega, by rw [← hs, List.take_append_drop]⟩
    have hlen : (w ++ u).length = n + u.length := by rw [List.length_append, hwn]
    refine ⟨w ++ u, by omega, by rw [List.append_assoc], fun rest' => .word ?_ ?_ ?_ (n := n)⟩
    · intro hd
      have hnone := hopen hd
      rw [← List.append_assoc] at hnone
      exact closing?_local _ _ (by omega) hnone
    · rw [← List.append_assoc] at hw
      exact hw.local (by omega) hpos rest'
    · have hdepth : depthAfter d t (w ++ u ++ rest') = depthAfter d t (w ++ (u ++ rest)) := by
        cases w with
        | nil => simp at hwn; omega
        | cons c w => rfl
      rw [hdepth, List.append_assoc, ← hwn, List.drop_left']
      · exact hlocal rest'
      · rfl

theorem Coded.of_blank {c : Char} (hc : Text.isTokenBlank c = true)
    (h : Coded kind d (c :: s) ws mark rest) : Coded kind d s ws mark rest := by
  generalize hs : c :: s = s' at h
  cases h with
  | close h =>
    rw [← hs, closing?_eq_none s (isTokenBlank_quiet hc).1] at h
    cases h
  | blank _ h =>
    cases hs
    exact h
  | word _ hw _ =>
    obtain ⟨a, r, rfl, ha⟩ := hw.head
    cases hs
    rw [isBlank_of_isTokenBlank hc] at ha
    cases ha

theorem Coded.of_word (hopen : d = 0 → closing? kind s = none) (hw : WordAt s t n)
    (h : Coded kind d s ws mark rest) :
    ∃ ws', ws = t :: ws' ∧ Coded kind (depthAfter d t s) (s.drop n) ws' mark rest := by
  cases h with
  | close h =>
    rw [hopen rfl] at h
    cases h
  | blank hc _ =>
    obtain ⟨a, r, ha, hblank⟩ := hw.head
    cases ha
    rw [isBlank_of_isTokenBlank hc] at hblank
    cases hblank
  | word _ hw' h =>
    obtain ⟨rfl, rfl⟩ := hw.unique hw'
    exact ⟨_, rfl, h⟩

theorem Coded.of_closing {rest' : List Char} {mark' : Mark} (hc : closing? kind s = some (mark', rest'))
    (h : Coded kind 0 s ws mark rest) : ws = [] ∧ mark = mark' ∧ rest = rest' := by
  cases h with
  | close h =>
    cases h.symm.trans hc
    exact ⟨rfl, rfl, rfl⟩
  | blank hb _ =>
    rw [closing?_eq_none _ (isTokenBlank_quiet hb).1] at hc
    cases hc
  | word hopen _ _ =>
    rw [hopen rfl] at hc
    cases hc

end SecureLayout.Template
