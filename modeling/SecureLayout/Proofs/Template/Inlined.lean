import SecureLayout.Proofs.Template.Pages
import SecureLayout.Proofs.Template.Reread

/-!
Text with expressions in it, as the lexer reads it. Main statement: the tokens are the text in front of each
expression, its words between delimiters, and the text at the end, `tokenize_inline`.
-/

namespace SecureLayout.Template

open Lexer

variable {space : BlockSpace} {fuel d : Nat} {l : Lexer} {s rest head text : List Char} {t : Tag} {ws : List Token}
  {mark : Mark}

/-- The token of a text, unless the text is empty. -/
def textTokens (text : List Char) : List Token :=
  if text.isEmpty then [] else [.data (String.ofList text)]

/-- The tokens of text with expressions in it. -/
def inlineTokens (head : List Char) : List (List Token × List Char) → List Token
  | [] => textTokens head
  | (ws, text) :: rest => textTokens head ++ .exprStart :: (ws ++ .exprEnd :: inlineTokens text rest)

/-- A tag of an expression without signs at its delimiters, of these words. -/
structure Tag.Says (t : Tag) (ws : List Token) : Prop where
  kind : t.kind = .expr
  lead : t.lead = .none
  trail : t.trail = .none
  start : ∀ rest, leadMark (t.inner ++ rest) = (.none, t.inner ++ rest)
  words : t.Words ws

/-! ### One run after the other -/

/-- A run that comes upon these tokens first and then goes on at that place, with enough fuel for what is left. -/
def GoesOn (space : BlockSpace) (fuel : Nat) (l : Lexer) (tokens : List Token) (next : Lexer → Prop) : Prop :=
  ∃ fuel' l', next l' ∧ l'.rest.length < fuel' ∧
    (run space fuel l).tokens.map Spanned.token = tokens ++ (run space fuel' l').tokens.map Spanned.token ∧
    (run space fuel l).fault = (run space fuel' l').fault

theorem GoesOn.trans {tokens tokens' : List Token} {mid next : Lexer → Prop} (h : GoesOn space fuel l tokens mid)
    (h' : ∀ fuel' l', mid l' → l'.rest.length < fuel' → GoesOn space fuel' l' tokens' next) :
    GoesOn space fuel l (tokens ++ tokens') next := by
  obtain ⟨fuel', l', hmid, hfuel', htokens, hfault⟩ := h
  obtain ⟨fuel'', l'', hnext, hfuel'', htokens', hfault'⟩ := h' fuel' l' hmid hfuel'
  exact ⟨fuel'', l'', hnext, hfuel'', by rw [htokens, htokens', List.append_assoc], hfault.trans hfault'⟩

theorem GoesOn.step {l' : Lexer} {ts : List Spanned} {next : Lexer → Prop} (h : Lexer.step space l = .goOn ts l')
    (hnext : next l') (hfuel : l'.rest.length < fuel) : GoesOn space (fuel + 1) l (ts.map Spanned.token) next := by
  refine ⟨fuel, l', hnext, hfuel, ?_, ?_⟩
  · rw [run_goOn h, List.map_append]
  · rw [run_goOn h]

/-- Between two tags, and nothing is to be dropped. -/
structure Between (s : List Char) (l : Lexer) : Prop where
  mode : l.mode = .text
  keeps : l.dropBlanks = false
  rest : l.rest = s

/-! ### Inside an expression -/

/-- The lexer reads an expression up to its delimiter. -/
theorem goesOn_coded (hcoded : Coded .expr d s ws mark rest) {l : Lexer} (hmode : l.mode = .code .expr d)
    (hrest : l.rest = s) (hfuel : s.length < fuel) : GoesOn space fuel l (ws ++ [.exprEnd]) fun l' =>
      l'.mode = .text ∧ l'.dropBlanks = (mark == .minus) ∧ l'.rest = rest := by
  -- Blanks are no step of their own, so the induction is on the length of what is left.
  induction hn : s.length using Nat.strong_induction_on generalizing d s ws l fuel with
  | _ k ih =>
    obtain ⟨fuel, rfl⟩ : ∃ n, fuel = n + 1 := ⟨fuel - 1, by omega⟩
    obtain ⟨htake, hdrop⟩ := takeWhile_split Text.isTokenBlank s
    have hblanks : ∀ c ∈ s.takeWhile Text.isTokenBlank, Text.isTokenBlank c = true :=
      fun c hc => List.mem_takeWhile_imp hc
    have hcoded' : Coded .expr d (s.dropWhile Text.isTokenBlank) ws mark rest := by
      rw [← List.takeWhile_append_dropWhile (p := Text.isTokenBlank) (l := s)] at hcoded
      exact hcoded.of_blanks hblanks
    have hlen : (s.dropWhile Text.isTokenBlank).length ≤ s.length := List.length_dropWhile_le _ _
    generalize hl' : l.take (l.rest.takeWhile Text.isTokenBlank).length = l'
    have hrest' : l'.rest = s.dropWhile Text.isTokenBlank := by
      rw [← hl', hrest, ← hdrop, ← hrest]
      rfl
    have hstep : Lexer.step space l = codeStep space .expr d l := by rw [Lexer.step, hmode]
    unfold codeStep at hstep
    rw [hl'] at hstep
    dsimp only at hstep
    generalize hs' : s.dropWhile Text.isTokenBlank = s' at hcoded' hlen hrest'
    rw [hrest'] at hstep
    have hne : s' ≠ [] := by
      rintro rfl
      exact not_coded_nil ⟨ws, mark, rest, hcoded'⟩
    rw [if_neg (by simpa using hne)] at hstep
    cases hcoded' with
    | close hc =>
      rw [if_pos rfl, hc] at hstep
      dsimp only at hstep
      refine GoesOn.step hstep ⟨rfl, rfl, rfl⟩ ?_
      have hsource := congrArg List.length (closing?_source hc)
      rw [List.length_append, List.length_cons, List.length_cons] at hsource
      change rest.length < fuel
      omega
    | blank hc h =>
      rw [dropWhile_head hs'] at hc
      cases hc
    | @word _ n _ _ t ws' _ hopen hw h =>
      have hclosing : (if d = 0 then closing? .expr s' else none) = none := by
        split
        · next hd => exact hopen hd
        · rfl
      have hword : l'.word = (.ok t, n) := word_eq_ok_iff.2 (hrest' ▸ hw)
      have hpos := hw.pos
      rw [hclosing, hword] at hstep
      dsimp only at hstep
      have hfuel' : (s'.drop n).length < fuel := by
        have hlen' := List.length_pos_of_ne_nil hne
        rw [List.length_drop]
        omega
      have hfirst : GoesOn space (fuel + 1) l [t] fun l' =>
          l'.mode = .code .expr (depthAfter d t s') ∧ l'.rest = s'.drop n := by
        refine .step hstep ⟨rfl, ?_⟩ ?_
        · change l'.rest.drop n = _
          rw [hrest']
        · change (l'.rest.drop n).length < fuel
          rwa [hrest']
      refine hfirst.trans ?_
      rintro fuel' l'' ⟨hmode', hrest''⟩ hfuel''
      rw [hrest''] at hfuel''
      have hlen' := List.length_pos_of_ne_nil hne
      exact ih _ (by rw [List.length_drop]; omega) h hmode' hrest'' hfuel'' rfl

/-! ### Text and expressions -/

theorem nextOpener_text {w : List Char} (hw : '\x7b' ∉ w) : nextOpener w = (w, none) := by
  induction w with
  | nil => rfl
  | cons c w ih =>
    rw [List.mem_cons, not_or] at hw
    have hc : c ≠ '\x7b' := Ne.symm hw.1
    unfold nextOpener
    split
    · cases ‹_ = _›
    · next heq => exact absurd (List.cons.inj heq).1 hc
    · next heq =>
      obtain ⟨rfl, rfl⟩ := List.cons.inj heq
      rw [ih hw.2]

theorem nextOpener_expr {w : List Char} (hw : '\x7b' ∉ w) (s : List Char) :
    nextOpener (w ++ '\x7b' :: '\x7b' :: s) = (w, some ('\x7b', s)) := by
  induction w with
  | nil => rfl
  | cons c w ih =>
    rw [List.mem_cons, not_or] at hw
    have hc : c ≠ '\x7b' := Ne.symm hw.1
    rw [List.cons_append]
    unfold nextOpener
    split
    · cases ‹_ = _›
    · next heq => exact absurd (List.cons.inj heq).1 hc
    · next heq =>
      obtain ⟨rfl, rfl⟩ := List.cons.inj heq
      rw [ih hw.2]

theorem map_token_text (l : Lexer) (w : List Char) :
    (if w.isEmpty then [] else [l.spanned (.data (String.ofList w))]).map Spanned.token = textTokens w := by
  unfold textTokens
  split <;> rfl

/-- The lexer reads text and the expression behind it. -/
theorem goesOn_expr (ht : t.Says ws) (hhead : '\x7b' ∉ head) (hl : Between (head ++ (t.source ++ s)) l)
    (hfuel : (head ++ (t.source ++ s)).length < fuel) :
    GoesOn space fuel l (textTokens head ++ .exprStart :: (ws ++ [.exprEnd])) (Between s) := by
  obtain ⟨fuel, rfl⟩ : ∃ n, fuel = n + 1 := ⟨fuel - 1, by omega⟩
  have hsource : t.source ++ s = '\x7b' :: '\x7b' :: (t.inner ++ s) := by
    rw [Tag.source_append, ht.kind, ht.lead]
    rfl
  have hstep : Lexer.step space l = textStep space l := by rw [Lexer.step, hl.mode]
  unfold textStep at hstep
  rw [hl.keeps, if_neg Bool.false_ne_true] at hstep
  dsimp only at hstep
  rw [hl.rest, hsource, nextOpener_expr hhead] at hstep
  dsimp only at hstep
  rw [ht.start] at hstep
  dsimp only at hstep
  have htext : leadText space ('\x7b' == '\x7b') l.blankLine head .none = head := by simp [leadText]
  rw [htext, atOpener, if_neg (by decide), if_neg (by decide)] at hstep
  have hlen : (t.inner ++ s).length < fuel := by
    rw [hsource, List.length_append, List.length_cons, List.length_cons] at hfuel
    omega
  have hopen : GoesOn space (fuel + 1) l _ fun l' => l'.mode = .code .expr 0 ∧ l'.rest = t.inner ++ s :=
    .step hstep ⟨rfl, rfl⟩ hlen
  have hall := hopen.trans fun fuel' l' hl' hfuel' =>
    goesOn_coded (ht.kind ▸ ht.words s) hl'.1 hl'.2 (hl'.2 ▸ hfuel')
  rw [List.map_append, map_token_text, List.append_assoc] at hall
  obtain ⟨fuel', l', ⟨hmode, hkeeps, hrest⟩, hall⟩ := hall
  exact ⟨fuel', l', ⟨hmode, by rw [hkeeps, ht.trail]; rfl, hrest⟩, hall⟩

/-- The lexer reads text and expressions one after the other. -/
theorem run_inline (space : BlockSpace) {cs : List (Tag × List Char)} {qs : List (List Token × List Char)}
    (h : List.Forall₂ (fun c q => c.1.Says q.1 ∧ q.2 = c.2 ∧ '\x7b' ∉ c.2) cs qs) (hhead : '\x7b' ∉ head)
    (hl : Between (cutSource (inline head cs)) l) (hfuel : (cutSource (inline head cs)).length < fuel) :
    (run space fuel l).tokens.map Spanned.token = inlineTokens head qs ∧ (run space fuel l).fault = none := by
  induction h generalizing head l fuel with
  | nil =>
    obtain ⟨fuel, rfl⟩ : ∃ n, fuel = n + 1 := ⟨fuel - 1, by omega⟩
    have hstep : Lexer.step space l = textStep space l := by rw [Lexer.step, hl.mode]
    have hrest : l.rest = head := hl.rest.trans (cutSource_chars head)
    unfold textStep at hstep
    rw [hl.keeps, if_neg Bool.false_ne_true] at hstep
    dsimp only at hstep
    rw [hrest, nextOpener_text hhead] at hstep
    rw [run_done hstep]
    exact ⟨map_token_text l head, rfl⟩
  | @cons c q cs qs hcq hrest ih =>
    obtain ⟨t, text⟩ := c
    obtain ⟨ws, text'⟩ := q
    obtain ⟨hspeaks, htext, hfree⟩ := hcq
    obtain rfl : text' = text := htext
    rw [cutSource_inline] at hl hfuel
    obtain ⟨fuel', l', hl', hfuel', htokens, hfault⟩ := goesOn_expr hspeaks hhead hl hfuel
    obtain ⟨htokens', hfault'⟩ := ih hfree hl' (hl'.rest ▸ hfuel')
    refine ⟨?_, hfault.trans hfault'⟩
    rw [htokens, htokens', inlineTokens]
    simp

/-! ### The line end at the end -/

theorem chars_of_append {w : List Char} {ls : List Chunk} {b : List Char} (h : chars w = ls ++ chars b) :
    ∃ w', ls = chars w' ∧ w' <+: w := by
  induction ls generalizing w with
  | nil => exact ⟨[], rfl, List.nil_prefix⟩
  | cons k ls ih =>
    cases w with
    | nil => cases h
    | cons c w =>
      obtain ⟨rfl, hrest⟩ := List.cons.inj h
      obtain ⟨w', rfl, hw'⟩ := ih hrest
      exact ⟨c :: w', rfl, (List.prefix_cons_inj c).2 hw'⟩

/-- Text behind the last tag is shortened in the same place. -/
theorem inline_of_append {cs : List (Tag × List Char)} {ls : List Chunk} {b : List Char}
    (h : inline head cs = ls ++ chars b) : ∃ head' cs', ls = inline head' cs' ∧ head' <+: head ∧
      List.Forall₂ (fun c c' => c'.1 = c.1 ∧ c'.2 <+: c.2) cs cs' := by
  induction cs generalizing head ls with
  | nil =>
    obtain ⟨head', rfl, hhead'⟩ := chars_of_append h
    exact ⟨head', [], rfl, hhead', .nil⟩
  | cons c cs ih =>
    obtain ⟨t, text⟩ := c
    change chars head ++ .tag t :: inline text cs = ls ++ chars b at h
    rcases List.append_eq_append_iff.1 h with ⟨more, rfl, hmore⟩ | ⟨more, -, hmore⟩
    · cases more with
      | nil =>
        have hb : Chunk.tag t :: inline text cs = chars b := hmore
        exact absurd (hb ▸ List.mem_cons_self) tag_not_mem_chars
      | cons k more =>
        obtain ⟨rfl, hrest⟩ := List.cons.inj hmore
        obtain ⟨text', cs', rfl, htext', hcs'⟩ := ih hrest
        exact ⟨head, (t, text') :: cs', rfl, List.prefix_rfl, .cons ⟨rfl, htext'⟩ hcs'⟩
    · have hmem : Chunk.tag t ∈ chars b := hmore ▸ List.mem_append_right more List.mem_cons_self
      exact absurd hmem tag_not_mem_chars

theorem inline_isSolid (head : List Char) (cs : List (Tag × List Char)) : ∀ k ∈ inline head cs, k.IsSolid := by
  have hchars : ∀ w : List Char, ∀ k ∈ chars w, k.IsSolid :=
    fun w => List.forall_mem_map.2 fun c _ => .inl ⟨c, rfl⟩
  induction cs generalizing head with
  | nil => exact hchars head
  | cons c cs ih =>
    refine List.forall_mem_append.2 ⟨hchars head, List.forall_mem_cons.2 ⟨.inr ?_, ih c.2⟩⟩
    rw [Chunk.source_tag]
    exact c.1.endsSolid

/-- The tokens of text with expressions in it, when the line end at the end is gone. -/
theorem tokenize_of_inline (space : BlockSpace) {source : List Char} {cs : List (Tag × List Char)}
    {qs : List (List Token × List Char)} (hsource : withoutLastLineEnd source = cutSource (inline head cs))
    (h : List.Forall₂ (fun c q => c.1.Says q.1 ∧ q.2 = c.2 ∧ '\x7b' ∉ c.2) cs qs) (hhead : '\x7b' ∉ head) :
    (tokenize space source).tokens.map Spanned.token = inlineTokens head qs ∧ (tokenize space source).fault = none := by
  have hl : Between (cutSource (inline head cs)) { rest := cutSource (inline head cs) } := ⟨rfl, rfl, rfl⟩
  rw [tokenize, hsource]
  exact run_inline space h hhead hl (Nat.lt_succ_self _)

/-- The tokens of text with expressions in it. The text at the end may lose a line end. -/
theorem tokenize_inline (space : BlockSpace) {cs : List (Tag × List Char)} {qs : List (List Token × List Char)}
    (h : List.Forall₂ (fun c q => c.1.Says q.1 ∧ q.2 = c.2 ∧ '\x7b' ∉ c.2) cs qs) (hhead : '\x7b' ∉ head) : ∃ head' qs',
    (tokenize space (cutSource (inline head cs))).tokens.map Spanned.token = inlineTokens head' qs' ∧
      (tokenize space (cutSource (inline head cs))).fault = none ∧ head' <+: head ∧
        List.Forall₂ (fun q q' => q'.1 = q.1 ∧ q'.2 <+: q.2) qs qs' := by
  obtain ⟨ls, b, hinline, -, hsource⟩ := split_lineEnd (inline_isSolid head cs)
  obtain ⟨head', cs', rfl, hhead', hcs'⟩ := inline_of_append hinline
  have hqs' : ∃ qs' : List (List Token × List Char),
      List.Forall₂ (fun c q => c.1.Says q.1 ∧ q.2 = c.2 ∧ '\x7b' ∉ c.2) cs' qs' ∧
        List.Forall₂ (fun q q' => q'.1 = q.1 ∧ q'.2 <+: q.2) qs qs' := by
    clear hinline hsource
    induction h generalizing cs' with
    | nil =>
      cases hcs'
      exact ⟨[], .nil, .nil⟩
    | @cons c q cs qs hcq hrest ih =>
      obtain ⟨hspeaks, htext, hfree⟩ := hcq
      cases hcs' with
      | @cons _ c' _ cs' hc hcs' =>
        obtain ⟨qs', hqs', hall⟩ := ih cs' hcs'
        refine ⟨(q.1, c'.2) :: qs', .cons ⟨hc.1 ▸ hspeaks, rfl, fun hmem => hfree (hc.2.subset hmem)⟩ hqs',
          .cons ⟨rfl, htext ▸ hc.2⟩ hall⟩
  obtain ⟨qs', hspeaks, hall⟩ := hqs'
  obtain ⟨htokens, hfault⟩ := tokenize_of_inline space hsource.symm hspeaks fun hmem => hhead (hhead'.subset hmem)
  exact ⟨head', qs', htokens, hfault, hhead', hall⟩

end SecureLayout.Template
