import SecureLayout.Proofs.Template.Lines
import SecureLayout.Proofs.Template.Trimming

/-!
Lines of tokens. Main statement: every token has the line of the place in the text that it was read from.
-/

namespace SecureLayout.Template

open Lexer

variable {s : List Char} {l : Lexer} {space : BlockSpace} {tokens : List Spanned}

/-- What the token is read from begins the text; blanks in front of data may be dropped. -/
def Token.Begins (v : List Char) : Token → Prop
  | .data d => ∃ b, Blanks b ∧ b ++ d.toList <+: v
  | .blockStart => ['\x7b', '%'] <+: v
  | .exprStart => ['\x7b', '\x7b'] <+: v
  | .blockEnd => ∃ m r, closing? .block v = some (m, r)
  | .exprEnd => ∃ m r, closing? .expr v = some (m, r)
  | t => ∃ n, WordAt v t n

/-- The token has the line where it was read. -/
def Spanned.Numbered (s : List Char) (t : Spanned) : Prop :=
  ∃ u v, s = u ++ v ∧ t.line = 1 + lineEnds u ∧ t.token.Begins v

theorem Token.begins_of_wordAt {v : List Char} {t : Token} {n : Nat} (h : WordAt v t n) : t.Begins v := by
  cases h with
  | symbol h => exact ⟨_, .symbol h⟩
  | string hq hb hx => exact ⟨_, .string hq hb hx⟩
  | number hc hn =>
    rcases number_token hn with ⟨k, rfl⟩ | ⟨x, rfl⟩
    · exact ⟨_, .number hc hn⟩
    · exact ⟨_, .number hc hn⟩
  | name hc => exact ⟨_, .name hc⟩

namespace Lexer

/-- The lexer stands in a text and counts the lines before it. -/
def Stands (s : List Char) (l : Lexer) : Prop :=
  ∃ u, s = u ++ l.rest ∧ l.line = 1 + lineEnds u

theorem Stands.advance {taken rest : List Char} (h : l.Stands s) (hrest : l.rest = taken ++ rest) :
    (l.advance taken rest).Stands s := by
  obtain ⟨u, hs, hline⟩ := h
  refine ⟨u ++ taken, ?_, ?_⟩
  · rw [hs, hrest, List.append_assoc]
    rfl
  · change l.line + lineEnds taken = _
    rw [hline, lineEnds_append, Nat.add_assoc]

theorem Stands.congr {l' : Lexer} (h : l.Stands s) (hrest : l'.rest = l.rest) (hline : l'.line = l.line) :
    l'.Stands s := by
  obtain ⟨u, hs, hu⟩ := h
  exact ⟨u, by rw [hrest, hs], by rw [hline, hu]⟩

theorem Stands.take (h : l.Stands s) (n : Nat) : (l.take n).Stands s :=
  h.advance (List.take_append_drop n l.rest).symm

theorem Stands.afterBlock (h : l.Stands s) (m : Mark) : (afterBlock space l m).Stands s := by
  cases m with
  | none =>
    unfold Lexer.afterBlock
    dsimp only
    split
    · exact h.take _
    · exact h
  | plus => exact h
  | minus => exact h

theorem Stands.settled (h : l.Stands s) : l.settled.Stands s := by
  unfold Lexer.settled
  split
  · exact h.take _
  · exact h

theorem Stands.numbered (h : l.Stands s) {t : Token} (ht : t.Begins l.rest) : (l.spanned t).Numbered s := by
  obtain ⟨u, hs, hline⟩ := h
  exact ⟨u, l.rest, hs, hline, ht⟩

end Lexer

/-- The tokens of a step are numbered, and so will be those of the next one. -/
def LexerStep.Numbered (s : List Char) : LexerStep → Prop
  | done tokens => ∀ t ∈ tokens, t.Numbered s
  | fault tokens _ => ∀ t ∈ tokens, t.Numbered s
  | goOn tokens l => (∀ t ∈ tokens, t.Numbered s) ∧ l.Stands s

namespace Lexer

/-! ### Raw sections -/

theorem blanks_nil : Blanks [] :=
  fun _ hc => absurd hc List.not_mem_nil

theorem blanks_cons {c : Char} {b : List Char} (hc : Text.isBlank c = true) (hb : Blanks b) : Blanks (c :: b) :=
  List.forall_mem_cons.2 ⟨hc, hb⟩

theorem lineEnd_blanks (text : List Char) : Blanks (text.take (lineEndLength text)) := by
  unfold lineEndLength
  split
  · exact blanks_cons (by decide) (blanks_cons (by decide) blanks_nil)
  · exact blanks_cons (by decide) blanks_nil
  · exact blanks_cons (by decide) blanks_nil
  · exact blanks_nil

theorem rawText_start (space : BlockSpace) (blankBefore : Bool) (before : Mark) (text : List Char) :
    ∃ b, Blanks b ∧ b ++ rawText space blankBefore before .plus text = text := by
  have hall : ∃ b, Blanks b ∧ b ++ text = text := ⟨[], blanks_nil, rfl⟩
  cases before with
  | none =>
    change ∃ b, Blanks b ∧ b ++ (if space.trim then text.drop (lineEndLength text) else text) = text
    split
    · exact ⟨_, lineEnd_blanks text, List.take_append_drop _ text⟩
    · exact hall
  | minus => exact ⟨_, fun c hc => List.mem_takeWhile_imp hc, List.takeWhile_append_dropWhile⟩
  | plus => exact hall

/-- Only blanks at its beginning keep the text of a raw section from beginning with what is left of it. -/
theorem rawText_part (space : BlockSpace) (blankBefore : Bool) (before after : Mark) (text : List Char) :
    ∃ b, Blanks b ∧ b ++ rawText space blankBefore before after text <+: text := by
  have hend : rawText space blankBefore before after text <+: rawText space blankBefore before .plus text := by
    cases after with
    | none =>
      change (if space.strip && isBlankAfter blankBefore text then
        withoutIndent (rawText space blankBefore before .plus text)
        else rawText space blankBefore before .plus text) <+: _
      split
      · exact Text.dropTail_prefix _ _
      · exact List.prefix_rfl
    | minus => exact Text.dropTail_prefix _ _
    | plus => exact List.prefix_rfl
  obtain ⟨b, hb, htext⟩ := rawText_start space blankBefore before text
  refine ⟨b, hb, ?_⟩
  calc b ++ rawText space blankBefore before after text
    _ <+: b ++ rawText space blankBefore before .plus text := (List.prefix_append_right_inj b).2 hend
    _ = text := htext

theorem rawEnd?_begins {text rest rest' : List Char} {lead trail : Mark}
    (h : rawEnd? rest = some (text, lead, trail, rest')) : text <+: rest := by
  fun_induction rawEnd? rest generalizing text lead trail rest' with
  | case1 => cases h
  | case2 =>
    cases h
    exact List.nil_prefix
  | case3 s lead' inner hlead hbare text' lead'' trail' rest'' hend ih =>
    cases h
    exact (List.prefix_cons_inj _).2 ((List.prefix_cons_inj _).2 (ih hend))
  | case4 => cases h
  | case5 c s _ text' lead' trail' rest'' hend ih =>
    cases h
    exact (List.prefix_cons_inj c).2 (ih hend)
  | case6 => cases h

/-! ### Steps -/

theorem numbered_atOpener {start : Lexer} {opener : Char} {rest : List Char} (htokens : ∀ t ∈ tokens, t.Numbered s)
    (hstart : start.Stands s) (hrest : start.rest = '\x7b' :: opener :: rest) (hopener : opener ∈ ['\x7b', '%', '#'])
    (hl : l.Stands s) : (atOpener space tokens start opener l).Numbered s := by
  have hadd : ∀ {t : Spanned}, t.Numbered s → ∀ t' ∈ tokens ++ [t], t'.Numbered s := by
    intro t ht t' ht'
    rcases List.mem_append.1 ht' with ht' | ht'
    · exact htokens t' ht'
    · rwa [List.mem_singleton.1 ht']
  unfold atOpener
  split
  · split
    · exact htokens
    · next mark taken rest' hend =>
      have htaken : l.rest = taken ++ rest' := by
        unfold commentEnd? at hend
        split at hend
        · cases hend
        · next hsplit =>
          cases hend
          rw [splitAtMark_source hsplit]
          simp
      exact ⟨htokens, (hl.advance htaken).afterBlock mark⟩
  · split
    · next hpercent =>
      subst hpercent
      split
      · next before rest1 hbare =>
        obtain ⟨v, -, -, hsource, -⟩ := bareTag?_local ⟨'r', "aw".toList, rfl, by decide⟩ (by decide) hbare
        have htake : l.rest.take (l.rest.length - rest1.length) = v := by
          rw [hsource, List.length_append, Nat.add_sub_cancel, List.take_left' rfl]
        have hbehind := hl.advance hsource
        rw [htake]
        dsimp only
        split
        · exact htokens
        · next text after trail rest2 hend =>
          obtain ⟨w, -, hsource', -⟩ := rawEnd?_local hend
          have htake' : rest1.take (rest1.length - rest2.length) = w := by
            rw [hsource', List.length_append, Nat.add_sub_cancel, List.take_left' rfl]
          obtain ⟨b, hb, hpart⟩ := rawText_part space (l.advance v rest1).blankLine before after text
          rw [htake']
          refine ⟨hadd (hbehind.numbered ⟨b, hb, ?_⟩), ?_⟩
          · rw [String.toList_ofList]
            exact hpart.trans (rawEnd?_begins hend)
          · have hpast := hbehind.advance (show (l.advance v rest1).rest = w ++ rest2 from hsource')
            refine Stands.afterBlock ?_ trail
            exact hpast.congr rfl rfl
      · exact ⟨hadd (hstart.numbered (hrest ▸ ⟨rest, rfl⟩)), hl⟩
    · next hhash hpercent =>
      have hbrace : opener = '\x7b' := by
        simp only [List.mem_cons, List.not_mem_nil, or_false] at hopener
        tauto
      subst hbrace
      exact ⟨hadd (hstart.numbered (hrest ▸ ⟨rest, rfl⟩)), hl⟩

theorem leadText_begins (space : BlockSpace) (isExpr blankBefore : Bool) (lead : List Char) (m : Mark) :
    leadText space isExpr blankBefore lead m <+: lead := by
  cases m with
  | minus => exact Text.dropTail_prefix _ _
  | plus => exact List.prefix_rfl
  | none =>
    unfold leadText
    dsimp only
    split
    · exact Text.dropTail_prefix _ _
    · exact List.prefix_rfl

theorem numbered_textStep (h : l.Stands s) : (textStep space l).Numbered s := by
  rw [← textStep_settled]
  have hl := h.settled
  have hstays := l.settled_dropBlanks
  generalize l.settled = l at hl hstays
  have hdata : ∀ d : List Char, d <+: l.rest → ∀ t ∈ if d.isEmpty then [] else [l.spanned (.data (String.ofList d))],
      t.Numbered s := by
    intro d hd t ht
    split at ht
    · cases ht
    · rw [List.mem_singleton.1 ht]
      refine hl.numbered ⟨[], blanks_nil, ?_⟩
      rw [String.toList_ofList]
      exact hd
  unfold textStep
  simp only [hstays, Bool.false_eq_true, if_false]
  rcases hnext : nextOpener l.rest with ⟨lead, o⟩
  cases o with
  | none =>
    obtain ⟨rfl, -⟩ := nextOpener_none hnext
    exact hdata _ List.prefix_rfl
  | some p =>
    obtain ⟨opener, rest⟩ := p
    obtain ⟨hsource, hopener, -⟩ := nextOpener_some hnext
    have hstart := hl.advance hsource
    have hinner : '\x7b' :: opener :: rest = '\x7b' :: opener :: (leadMark rest).1.source ++ (leadMark rest).2 :=
      congrArg (fun r => '\x7b' :: opener :: r) (leadMark_source rest).symm
    refine numbered_atOpener (hdata _ ?_) hstart rfl hopener (hstart.advance hinner)
    exact (leadText_begins _ _ _ lead _).trans ⟨_, hsource.symm⟩

theorem numbered_codeStep {kind : TagKind} {depth : Nat} (h : l.Stands s) :
    (codeStep space kind depth l).Numbered s := by
  have hone : ∀ {t : Spanned}, t.Numbered s → ∀ t' ∈ [t], t'.Numbered s := by
    intro t ht t' ht'
    rwa [List.mem_singleton.1 ht']
  have hl := h.take (l.rest.takeWhile Text.isTokenBlank).length
  unfold codeStep
  dsimp only
  generalize l.take (l.rest.takeWhile Text.isTokenBlank).length = l at hl
  split
  · exact fun t ht => absurd ht List.not_mem_nil
  · split
    · next mark rest hclosing =>
      have hclosing : closing? kind l.rest = some (mark, rest) := by
        split at hclosing
        · exact hclosing
        · cases hclosing
      have hrest : l.rest = (mark.source ++ [kind.closes, '\x7d']) ++ rest := by
        rw [closing?_source hclosing]
        simp
      have hpast := hl.advance hrest
      cases kind with
      | block =>
        refine ⟨hone (hl.numbered ⟨mark, rest, hclosing⟩), Stands.afterBlock ?_ mark⟩
        exact hpast.congr rfl rfl
      | expr => exact ⟨hone (hl.numbered ⟨mark, rest, hclosing⟩), hpast.congr rfl rfl⟩
    · split
      · exact fun t ht => absurd ht List.not_mem_nil
      · next t n hword =>
        exact ⟨hone (hl.numbered (Token.begins_of_wordAt (word_eq_ok_iff.1 hword))), (hl.take n).congr rfl rfl⟩

theorem numbered_run (fuel : Nat) (h : l.Stands s) : ∀ t ∈ (run space fuel l).tokens, t.Numbered s := by
  induction fuel generalizing l with
  | zero => exact fun t ht => absurd ht List.not_mem_nil
  | succ fuel ih =>
    have hstep : (step space l).Numbered s := by
      unfold step
      split
      · exact numbered_textStep h
      · exact numbered_codeStep h
    cases he : step space l with
    | done ts =>
      rw [he] at hstep
      rw [run_done he]
      exact hstep
    | fault ts e =>
      rw [he] at hstep
      rw [run_fault he]
      exact hstep
    | goOn ts l' =>
      rw [he] at hstep
      rw [run_goOn he]
      intro t ht
      rcases List.mem_append.1 ht with ht | ht
      · exact hstep.1 t ht
      · exact ih hstep.2 t ht

end Lexer

/-- Whatever the white space around tags, a token has the line in the source that it was read on. -/
theorem tokenize_numbered (space : BlockSpace) (source : List Char) :
    ∀ t ∈ (tokenize space source).tokens, t.Numbered (withoutLastLineEnd source) :=
  Lexer.numbered_run _ ⟨[], rfl, rfl⟩

end SecureLayout.Template
