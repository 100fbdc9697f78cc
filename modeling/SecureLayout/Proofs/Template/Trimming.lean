import SecureLayout.Proofs.Template.Alike

/-!
Blanks beside a directive. The expansion drops them before the lexer sees the source, and means to drop what the
lexer drops beside a block with the same signs. Main statement: it does so where indentation is made of spaces and
tabs and no carriage return stands alone behind the directive.
-/

namespace SecureLayout.Template

open Lexer

/-! ### In front of a directive -/

def isIndent (c : Char) : Bool :=
  c == ' ' || c == '\t'

/-- Of blanks there are only spaces, tabs and line feeds. -/
def PlainBlanks (s : List Char) : Prop :=
  ∀ c ∈ s, Text.isBlank c = true → isIndent c = true ∨ c = '\n'

theorem isBlank_of_isIndent {c : Char} (h : isIndent c = true) : Text.isBlank c = true :=
  isBlank_of_indent h

theorem not_isLineEnd_of_isIndent {c : Char} (h : isIndent c = true) : Text.isLineEnd c = false := by
  rcases Bool.or_eq_true _ _ ▸ h with h | h
  all_goals
    rw [eq_of_beq h]
    decide

theorem isLineEnd_of_not_isBlank {c : Char} (h : Text.isBlank c = false) : Text.isLineEnd c = false := by
  cases hend : Text.isLineEnd c with
  | false => rfl
  | true =>
    rcases Bool.or_eq_true _ _ ▸ hend with he | he
    all_goals
      rw [eq_of_beq he] at h
      revert h
      decide

theorem isBlankAfter_append (blank : Bool) (s t : List Char) :
    isBlankAfter blank (s ++ t) = isBlankAfter (isBlankAfter blank s) t := by
  induction s generalizing blank with
  | nil => rfl
  | cons c s ih => exact ih _

theorem isBlankAfter_indent {s : List Char} (hs : ∀ c ∈ s, isIndent c = true) (blank : Bool) :
    isBlankAfter blank s = blank := by
  induction s generalizing blank with
  | nil => rfl
  | cons c s ih =>
    obtain ⟨hc, hs⟩ := List.forall_mem_cons.1 hs
    rw [isBlankAfter, ih hs, not_isLineEnd_of_isIndent hc, isBlank_of_isIndent hc]
    simp

/-- What is dropped from the end of a text stops in front of what is held behind it. -/
theorem dropWhile_held {q : Char → Bool} {held older : List Char} (h : ∀ c ∈ older.head?, q c = false) :
    (held ++ older).dropWhile q = held.dropWhile q ++ older := by
  rw [List.dropWhile_append]
  split
  · next hnone =>
    rw [List.isEmpty_iff.1 hnone, List.nil_append]
    cases older with
    | nil => rfl
    | cons c r => exact List.dropWhile_cons_of_neg (by simp [h c rfl])
  · rfl

/-- Of plain blanks, indentation is what the lexer takes for it. -/
theorem withoutIndent_eq {s : List Char} (hs : PlainBlanks s) :
    withoutIndent s = (s.reverse.dropWhile isIndent).reverse := by
  have hsame : ∀ t : List Char, (∀ c ∈ t, c ∈ s) →
      t.dropWhile (fun c => Text.isBlank c && !Text.isLineEnd c) = t.dropWhile isIndent := by
    intro t ht
    induction t with
    | nil => rfl
    | cons c t ih =>
      obtain ⟨hc, ht⟩ := List.forall_mem_cons.1 ht
      have hpred : (Text.isBlank c && !Text.isLineEnd c) = isIndent c := by
        cases hindent : isIndent c with
        | true => rw [isBlank_of_isIndent hindent, not_isLineEnd_of_isIndent hindent]; rfl
        | false =>
          cases hblank : Text.isBlank c with
          | false => rfl
          | true =>
            rcases hs c hc hblank with h | rfl
            · rw [hindent] at h
              cases h
            · rfl
      rw [List.dropWhile_cons, List.dropWhile_cons, hpred, ih ht]
  rw [withoutIndent, Text.dropTail, hsame s.reverse fun c hc => List.mem_reverse.1 hc]

/-- Whether the lexer strips a text is decided by the character that its indentation stands behind. -/
theorem leadText_of_split {text ind : List Char} (hind : ∀ c ∈ ind, isIndent c = true) (c : Char)
    (hc : Text.isBlank c = true → c = '\n') (blank : Bool) (hplain : PlainBlanks (text ++ c :: ind))
    (hsolid : isIndent c = false) :
    leadText .layout false blank (text ++ c :: ind) .none =
      if c = '\n' then text ++ [c] else text ++ c :: ind := by
  have hblank : isBlankAfter blank (text ++ c :: ind) =
      (Text.isLineEnd c || isBlankAfter blank text && Text.isBlank c) := by
    rw [isBlankAfter_append, isBlankAfter, isBlankAfter_indent hind]
    cases Text.isLineEnd c <;> simp
  have hstripped : withoutIndent (text ++ c :: ind) = text ++ [c] := by
    have hreverse : (text ++ c :: ind).reverse = ind.reverse ++ c :: text.reverse := by simp
    rw [withoutIndent_eq hplain, hreverse,
      dropWhile_of_split (fun a ha => hind a (List.mem_reverse.1 ha)) hsolid]
    simp
  by_cases hline : c = '\n'
  · subst hline
    simp [leadText, BlockSpace.layout, hblank, hstripped, Text.isLineEnd]
  · have hnot : Text.isBlank c = false := by
      cases hb : Text.isBlank c with
      | false => rfl
      | true => exact absurd (hc hb) hline
    simp [leadText, BlockSpace.layout, hblank, hline, hnot, isLineEnd_of_not_isBlank hnot]

/-- The text in front of a directive is trimmed as the lexer trims it in front of a block. -/
theorem Expansion.before_eq {e : Expansion} {lead older : List Char} (hpending : e.pending = lead.reverse ++ older)
    (holder : ∀ c ∈ older.head?, Text.isBlank c = false) (hplain : PlainBlanks lead) (m : Mark) :
    e.before m = older.reverse ++ leadText .layout false (older.isEmpty && e.atLineStart) lead m := by
  cases m with
  | plus =>
    rw [before, hpending, List.reverse_append, List.reverse_reverse]
    rfl
  | minus =>
    rw [before, hpending, dropWhile_held holder, List.reverse_append]
    rfl
  | none =>
    have hsolid : ∀ c ∈ older.head?, isIndent c = false := by
      intro c hc
      cases hi : isIndent c with
      | false => rfl
      | true =>
        have hb := holder c hc
        rw [isBlank_of_isIndent hi] at hb
        cases hb
    obtain ⟨ind, hind, hsplit⟩ := dropWhile_split (rfl : lead.reverse.dropWhile isIndent = _)
    have hheld : (e.pending.dropWhile fun c => c == ' ' || c == '\t') = lead.reverse.dropWhile isIndent ++ older := by
      change e.pending.dropWhile isIndent = _
      rw [hpending, dropWhile_held hsolid]
    unfold before
    dsimp only
    rw [hheld]
    cases hrest : lead.reverse.dropWhile isIndent with
    | nil =>
      rw [hrest, List.append_nil] at hsplit
      have hlead : ∀ c ∈ lead, isIndent c = true := fun c hc => hind c (hsplit ▸ List.mem_reverse.2 hc)
      have hstripped : withoutIndent lead = [] := by
        rw [withoutIndent_eq hplain, hrest]
        rfl
      cases older with
      | nil => simp [leadText, BlockSpace.layout, isBlankAfter_indent hlead, hstripped, hpending]
      | cons c r =>
        have hc : c ≠ '\n' := by
          rintro rfl
          cases holder '\n' rfl
        simp [leadText, isBlankAfter_indent hlead, hc, hpending]
    | cons c r =>
      have hci : isIndent c = false := dropWhile_head hrest
      rw [hrest] at hsplit
      have hlead : lead = r.reverse ++ c :: ind.reverse := by
        rw [← List.reverse_reverse lead, hsplit]
        simp
      have hc : Text.isBlank c = true → c = '\n' := by
        intro hb
        rcases hplain c (by rw [hlead]; simp) hb with h | h
        · rw [hci] at h
          cases h
        · exact h
      rw [hlead] at hplain ⊢
      rw [leadText_of_split (fun a ha => hind a (List.mem_reverse.1 ha)) c hc _ hplain hci, hpending, hlead]
      by_cases hline : c = '\n' <;> simp [hline]

/-! ### Behind a directive -/

/-- The lexer once it has dropped what the tag before it drops. -/
def Lexer.settled (l : Lexer) : Lexer :=
  if l.dropBlanks then { l.take (l.rest.takeWhile Text.isBlank).length with dropBlanks := false } else l

theorem Lexer.settled_dropBlanks (l : Lexer) : l.settled.dropBlanks = false := by
  unfold settled
  split
  · rfl
  · next h => exact eq_false_of_ne_true h

theorem Lexer.textStep_settled (space : BlockSpace) (l : Lexer) : textStep space l.settled = textStep space l := by
  unfold textStep
  rw [l.settled_dropBlanks]
  rfl

/-- No carriage return stands alone at the beginning. -/
def NoLoneReturn : List Char → Prop
  | '\r' :: '\n' :: _ => True
  | '\r' :: _ => False
  | _ => True

theorem lineEndLength_of_head {s : List Char} (h : ∀ c ∈ s.head?, Text.isLineEnd c = false) :
    lineEndLength s = 0 := by
  cases s with
  | nil => rfl
  | cons c r =>
    have hc := h c rfl
    unfold lineEndLength
    split
    · next heq =>
      cases heq
      exact absurd hc (by decide)
    · next heq =>
      cases heq
      exact absurd hc (by decide)
    · next heq =>
      cases heq
      exact absurd hc (by decide)
    · rfl

/-- A line end behind a directive is measured alike. -/
theorem lineEndLength_eq {text beyond : List Char} (hbeyond : ∀ c ∈ beyond.head?, Text.isBlank c = false)
    (hreturn : NoLoneReturn text) : lineEndLength (text ++ beyond) = Expansion.droppedAfter .none text := by
  cases text with
  | nil => exact lineEndLength_of_head fun c hc => isLineEnd_of_not_isBlank (hbeyond c hc)
  | cons c r =>
    by_cases hfeed : c = '\n'
    · subst hfeed
      rfl
    · by_cases hcarriage : c = '\r'
      · subst hcarriage
        cases r with
        | nil => exact hreturn.elim
        | cons d r =>
          by_cases hd : d = '\n'
          · subst hd
            rfl
          · unfold NoLoneReturn at hreturn
            split at hreturn
            · next heq =>
              cases heq
              exact absurd rfl hd
            · exact hreturn.elim
            · next hno => exact absurd rfl (hno (d :: r))
      · have hend : Text.isLineEnd c = false := by
          simp [Text.isLineEnd, hfeed, hcarriage]
        rw [droppedAfter_zero (fun r h => hfeed (List.cons.inj h).1) fun r h => hcarriage (List.cons.inj h).1]
        exact lineEndLength_of_head (by rintro _ ⟨⟩; exact hend)

/-- The text behind a directive is trimmed as the lexer trims it behind a block. -/
theorem Expansion.droppedAfter_eq {l : Lexer} {text beyond : List Char} (hrest : l.rest = text ++ beyond)
    (hbeyond : ∀ c ∈ beyond.head?, Text.isBlank c = false) (hdrop : l.dropBlanks = false)
    (hreturn : NoLoneReturn text) (m : Mark) :
    (afterBlock .layout l m).settled.rest = l.rest.drop (droppedAfter m text) := by
  cases m with
  | plus => simp [afterBlock, Lexer.settled, hdrop, droppedAfter]
  | minus =>
    have hsame : (text ++ beyond).takeWhile Text.isBlank = text.takeWhile Text.isBlank := by
      cases beyond with
      | nil => rw [List.append_nil]
      | cons c r => exact takeWhile_append_neg (hbeyond c rfl) text r
    simp [afterBlock, Lexer.settled, droppedAfter, Lexer.take, Lexer.advance, hrest, hsame]
  | none =>
    have hlength := lineEndLength_eq hbeyond hreturn
    simp [afterBlock, BlockSpace.layout, Lexer.skipLineEnd, Lexer.settled, Lexer.take, Lexer.advance, hdrop, hrest,
      hlength]

/-- Beside a directive the text loses what it would lose beside a block with the same signs: in front of it by the
lexer's own rule, and behind it as much as the lexer would take. -/
theorem directive_trims_as_block {p : SecurityPolicy} {registry : Option Component.Registry} {t : Tag} {d : Directive}
    {e : Expansion} {lead older : List Char} (hrole : t.role = .directive) (hparse : Directive.parse t.args = .ok d)
    (hpending : e.pending = lead.reverse ++ older) (holder : ∀ c ∈ older.head?, Text.isBlank c = false)
    (hplain : PlainBlanks lead) (ps : List Piece) (skip : Nat) :
    ∃ taken, (∀ (l : Lexer) beyond, l.rest = leadingText ps ++ beyond →
        (∀ c ∈ beyond.head?, Text.isBlank c = false) → l.dropBlanks = false → NoLoneReturn (leadingText ps) →
        (afterBlock .layout l t.trail).settled.rest = l.rest.drop taken) ∧
      expandPieces p registry (.tag t :: ps) skip e = do
        let after ← expandPieces p registry ps taken (e.afterTag t)
        return older.reverse ++ leadText .layout false (older.isEmpty && e.atLineStart) lead t.lead ++
          ((d.replacement p registry).source ++ after) := by
  refine ⟨Expansion.droppedAfter t.trail (leadingText ps), fun l beyond hrest hbeyond hdrop hreturn => ?_, ?_⟩
  · exact Expansion.droppedAfter_eq hrest hbeyond hdrop hreturn t.trail
  · rw [expandPieces, hrole]
    dsimp only
    rw [hparse, ← Expansion.before_eq hpending holder hplain]

end SecureLayout.Template
