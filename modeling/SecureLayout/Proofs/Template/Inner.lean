import SecureLayout.Proofs.Template.TagNames
import SecureLayout.Proofs.Template.Shape

/-!
Text between brackets: strings, matching brackets, and other characters. Main statements: the scanner goes
over such text without a change of depth, and a key that ends with its map has no colon behind it.
-/

namespace SecureLayout.Template

open Lexer

def brackets : List Char :=
  ['(', ')', '[', ']', '\x7b', '\x7d']

/-- Neither a quote nor a bracket. -/
def isFlat (c : Char) : Prop :=
  Inside.isQuote c = false ∧ c ∉ brackets

theorem isFlat.next {c : Char} (h : isFlat c) : Inside.next .code c = .code := by
  rw [Inside.next, h.1]
  rfl

theorem isFlat.depth {c : Char} (h : isFlat c) (d : Nat) : bracketDepth d c = d := by
  have hc := h.2
  simp only [brackets, List.mem_cons, List.not_mem_nil, or_false, not_or] at hc
  simp [bracketDepth, hc]

theorem isFlat_of_isNamePart {c : Char} (h : Text.isNamePart c = true) : isFlat c := by
  have hne : ∀ a : Char, Text.isNamePart a = false → c ≠ a := by
    rintro a ha rfl
    rw [h] at ha
    cases ha
  constructor
  · simp only [Inside.isQuote, Bool.or_eq_false_iff, beq_eq_false_iff_ne]
    exact ⟨hne _ (by decide), hne _ (by decide)⟩
  · simp only [brackets, List.mem_cons, List.not_mem_nil, or_false, not_or]
    exact ⟨hne _ (by decide), hne _ (by decide), hne _ (by decide), hne _ (by decide), hne _ (by decide),
      hne _ (by decide)⟩

theorem body?_deep {kind : TagKind} {d : Nat} (c : Char) (s : List Char) :
    body? kind .code (d + 1) (c :: s) =
      (body? kind (Inside.next .code c) (bracketDepth (d + 1) c) s).map (prepend [c]) :=
  body?_code fun h => absurd h (Nat.succ_ne_zero d)

/-- Text with strings in double quotes and matching brackets. -/
inductive Inner : List Char → Prop
  | nil : Inner []
  | char {c : Char} {s : List Char} (hc : isFlat c) (h : Inner s) : Inner (c :: s)
  | string {b s : List Char} (hb : ∀ r, stringBody? '"' false (b ++ '"' :: r) = some (b, r)) (h : Inner s) :
      Inner ('"' :: (b ++ '"' :: s))
  | nested {o c : Char} {u s : List Char} (ho : (o, c) ∈ [('(', ')'), ('[', ']'), ('\x7b', '\x7d')])
      (hu : Inner u) (h : Inner s) : Inner (o :: (u ++ c :: s))

namespace Inner

variable {u v : List Char}

theorem append (h : Inner u) (h' : Inner v) : Inner (u ++ v) := by
  induction h with
  | nil => exact h'
  | char hc _ ih => exact .char hc ih
  | string hb _ ih =>
    rw [List.cons_append, List.append_assoc, List.cons_append]
    exact .string hb ih
  | nested ho hu _ _ ih =>
    rw [List.cons_append, List.append_assoc, List.cons_append]
    exact .nested ho hu ih

theorem of_flat (h : ∀ c ∈ u, isFlat c) : Inner u := by
  induction u with
  | nil => exact .nil
  | cons c u ih => exact .char (h c List.mem_cons_self) (ih fun a ha => h a (List.mem_cons_of_mem _ ha))

/-- What holds of the brackets of `nested`. -/
theorem nested_quiet {o c : Char} (ho : (o, c) ∈ [('(', ')'), ('[', ']'), ('\x7b', '\x7d')]) :
    (Inside.next .code o = .code ∧ ∀ d, bracketDepth d o = d + 1) ∧
      Inside.next .code c = .code ∧ ∀ d, bracketDepth (d + 1) c = d := by
  simp only [List.mem_cons, List.not_mem_nil, or_false, Prod.mk.injEq] at ho
  rcases ho with ⟨rfl, rfl⟩ | ⟨rfl, rfl⟩ | ⟨rfl, rfl⟩ <;>
    exact ⟨⟨by decide, fun d => by simp [bracketDepth]⟩, by decide, fun d => by simp [bracketDepth]⟩

/-- Inside brackets the scanner goes over such text. -/
theorem body? {kind : TagKind} {d : Nat} (h : Inner u) (v : List Char) :
    Template.body? kind .code (d + 1) (u ++ v) = (Template.body? kind .code (d + 1) v).map (prepend u) := by
  induction h generalizing d v with
  | nil => rw [map_prepend_nil, List.nil_append]
  | @char c s hc _ ih =>
    rw [List.cons_append, body?_deep, hc.next, hc.depth, ih, map_prepend_append]
    rfl
  | @string b s hb _ ih =>
    rw [List.cons_append, List.append_assoc, List.cons_append, body?_deep]
    have hnext : Inside.next .code '"' = .string '"' false := rfl
    have hdepth : bracketDepth (d + 1) '"' = d + 1 := by simp [bracketDepth]
    rw [hnext, hdepth, body?_string (hb _), ih, map_prepend_append, map_prepend_append]
    simp
  | @nested o c w s ho _ _ ihw ih =>
    obtain ⟨⟨hnext, hdepth⟩, hnext', hdepth'⟩ := nested_quiet ho
    rw [List.cons_append, List.append_assoc, List.cons_append, body?_deep, hnext, hdepth, ihw,
      body?_deep, hnext', hdepth', ih, map_prepend_append, map_prepend_append, map_prepend_append]
    simp

end Inner

/-! ### Where the key of a map ends -/

/-- Whether a colon comes, outside strings, before a bracket closes that was not opened. -/
def keyEnd? : Inside → Nat → List Char → Option Bool
  | _, _, [] => none
  | .string q e, d, c :: s => keyEnd? (Inside.next (.string q e) c) d s
  | .code, d, c :: s =>
    if d = 0 ∧ c = ':' then some true
    else if d = 0 ∧ c ∈ [')', ']', '\x7d'] then some false
    else keyEnd? (Inside.next .code c) (bracketDepth d c) s

theorem keyEnd?_string {q : Char} {e : Bool} {d : Nat} {r body rest : List Char}
    (h : stringBody? q e r = some (body, rest)) : keyEnd? (.string q e) d r = keyEnd? .code d rest := by
  induction r generalizing e body with
  | nil => cases e <;> cases h
  | cons c r ih =>
    rw [keyEnd?]
    cases e with
    | true =>
      simp only [stringBody?, Option.map_eq_some_iff, Prod.exists, Prod.mk.injEq] at h
      obtain ⟨b, r', hb, rfl, rfl⟩ := h
      rw [Inside.next, ih hb]
    | false =>
      simp only [stringBody?] at h
      split_ifs at h with hc hq
      · simp only [Option.map_eq_some_iff, Prod.exists, Prod.mk.injEq] at h
        obtain ⟨b, r', hb, rfl, rfl⟩ := h
        rw [Inside.next, if_pos hc, ih hb]
      · cases h
        rw [Inside.next, if_neg hc, if_pos hq]
      · simp only [Option.map_eq_some_iff, Prod.exists, Prod.mk.injEq] at h
        obtain ⟨b, r', hb, rfl, rfl⟩ := h
        rw [Inside.next, if_neg hc, if_neg hq, ih hb]

theorem keyEnd?_flat {c : Char} {d : Nat} (s : List Char) (hc : isFlat c) (hcolon : d = 0 → c ≠ ':') :
    keyEnd? .code d (c :: s) = keyEnd? .code d s := by
  rw [keyEnd?, if_neg fun h => hcolon h.1 h.2, if_neg, hc.next, hc.depth]
  rintro ⟨-, hmem⟩
  refine hc.2 ?_
  simp only [List.mem_cons, List.not_mem_nil, or_false] at hmem
  rcases hmem with rfl | rfl | rfl <;> decide

theorem isFlat_of_isCalm {c : Char} (h : isCalm c) : isFlat c ∧ c ≠ ':' := by
  rcases h with h | h
  · refine ⟨isFlat_of_isNamePart h, ?_⟩
    rintro rfl
    revert h
    decide
  · simp only [List.mem_cons, List.not_mem_nil, or_false] at h
    rcases h with rfl | rfl | rfl <;> exact ⟨by unfold isFlat; decide, by decide⟩

theorem keyEnd?_calm_drop {d n : Nat} {s : List Char} (h : ∀ c ∈ s.take n, isCalm c) :
    keyEnd? .code d s = keyEnd? .code d (s.drop n) := by
  induction n generalizing s with
  | zero => rfl
  | succ n ih =>
    cases s with
    | nil => rfl
    | cons c s =>
      obtain ⟨hflat, hcolon⟩ := isFlat_of_isCalm (h c List.mem_cons_self)
      rw [keyEnd?_flat s hflat fun _ => hcolon, ih fun a ha => h a (List.mem_cons_of_mem _ ha)]
      rfl

/-- Inside brackets no key ends. -/
theorem Inner.keyEnd? {u : List Char} {d : Nat} (h : Inner u) (v : List Char) :
    Template.keyEnd? .code (d + 1) (u ++ v) = Template.keyEnd? .code (d + 1) v := by
  induction h generalizing d v with
  | nil => rfl
  | char hc _ ih => rw [List.cons_append, keyEnd?_flat _ hc (fun h => absurd h (Nat.succ_ne_zero _)), ih]
  | @string b s hb _ ih =>
    have hnext : Inside.next .code '"' = .string '"' false := rfl
    have hdepth : bracketDepth (d + 1) '"' = d + 1 := by simp [bracketDepth]
    rw [List.cons_append, List.append_assoc, List.cons_append, Template.keyEnd?, if_neg (by simp),
      if_neg (by simp), hnext, hdepth, keyEnd?_string (hb _), ih]
  | @nested o c w s ho _ _ ihw ih =>
    obtain ⟨⟨hnext, hdepth⟩, hnext', hdepth'⟩ := Inner.nested_quiet ho
    rw [List.cons_append, List.append_assoc, List.cons_append, Template.keyEnd?, if_neg (by simp),
      if_neg (by simp), hnext, hdepth, ihw, Template.keyEnd?, if_neg (by simp), if_neg (by simp), hnext', hdepth', ih]

/-- What a symbol is to brackets and keys is told by its first character. -/
theorem symbol?_depth {c : Char} {r : List Char} {y : Symbol} {n : Nat} (h : symbol? (c :: r) = some (y, n)) :
    (y = .colon ↔ c = ':') ∧ ∀ d, (Token.symbol y).depth? d =
      if c ∈ ['(', '[', '\x7b'] then some (d + 1)
      else if c ∈ [')', ']', '\x7d'] then if d = 0 then none else some (d - 1) else some d := by
  unfold symbol? at h
  split at h <;> first
    | (rename_i heq; cases heq; cases h; exact ⟨by decide, fun d => rfl⟩)
    | skip
  · rename_i heq
    cases heq
    split at h <;> first
      | (cases h; exact ⟨by decide, fun d => rfl⟩)
      | cases h
  · cases h

theorem bracketDepth_eq (d : Nat) (c : Char) : bracketDepth d c =
    if c ∈ ['(', '[', '\x7b'] then d + 1 else if c ∈ [')', ']', '\x7d'] then d - 1 else d := by
  simp [bracketDepth, or_assoc]

/-- Where no key ends, the words have no colon behind a key either. -/
theorem Coded.not_keyEnds {kind : TagKind} {d e : Nat} {s rest : List Char} {ws : List Token} {mark : Mark}
    (h : Coded kind e s ws mark rest) (he : e = d + 1) (hk : keyEnd? .code d s = some false) (more : List Token) :
    ¬ KeyEnds d (ws ++ more) := by
  induction h generalizing d with
  | close => cases he
  | @blank e c s rest ws mark hc h ih =>
    refine ih he ?_
    have hflat : isFlat c ∧ c ≠ ':' := by
      have hc : c = ' ' ∨ c = '\t' ∨ c = '\n' ∨ c = '\r' ∨ c = '\x0c' := by
        simpa [Text.isTokenBlank, or_assoc] using hc
      rcases hc with rfl | rfl | rfl | rfl | rfl <;> exact ⟨by unfold isFlat; decide, by decide⟩
    rwa [keyEnd?_flat _ hflat.1 fun _ => hflat.2] at hk
  | @word e n s rest t ws mark hopen hw h ih =>
    subst he
    -- A word without brackets that is no colon.
    have hcalm : (∀ d, t.depth? d = some d) → t ≠ .symbol .colon → depthAfter (d + 1) t s = d + 1 →
        keyEnd? .code d (s.drop n) = some false → ¬ KeyEnds d (t :: ws ++ more) := by
      intro ht hcolon hdepth hk hends
      rcases hends with ⟨heq, -⟩ | hends
      · exact hcolon heq
      · rw [ht] at hends
        exact ih hdepth hk hends
    cases hw with
    | @symbol s y n hy =>
      cases s with
      | nil => cases hy
      | cons c s =>
        have hnext := next_code_of_mem_symbolHeads (mem_symbolHeads hy)
        obtain ⟨hcolon, hdepth⟩ := symbol?_depth hy
        have hflat : c ∉ brackets → isFlat c := by
          intro hc
          obtain ⟨-, hq, hq'⟩ := symbolHeads_quiet c (mem_symbolHeads hy)
          exact ⟨by simp [Inside.isQuote, hq, hq'], hc⟩
        have hone : c ∈ brackets → n = 1 := by
          intro hc
          rcases symbol?_length hy with h | ⟨-, hc', -⟩
          · exact h
          · have hout : ∀ a ∈ ['/', '*', '=', '!', '>', '<'], a ∉ brackets := List.all_iff_forall_prop.1 (by decide)
            exact absurd hc (hout c hc')
        by_cases hopening : c ∈ ['(', '[', '\x7b']
        · have hc : c ∈ brackets ∧ c ∉ [')', ']', '\x7d'] ∧ c ≠ ':' := by
            simp only [List.mem_cons, List.not_mem_nil, or_false] at hopening
            rcases hopening with rfl | rfl | rfl <;> decide
          obtain rfl := hone hc.1
          rw [keyEnd?, if_neg fun h => hc.2.2 h.2, if_neg fun h => hc.2.1 h.2, hnext, bracketDepth_eq,
            if_pos hopening] at hk
          rintro (⟨heq, -⟩ | hends)
          · exact hc.2.2 (hcolon.1 (Token.symbol.inj heq))
          · rw [hdepth, if_pos hopening] at hends
            refine ih ?_ hk hends
            change bracketDepth (d + 1) c = d + 2
            rw [bracketDepth_eq, if_pos hopening]
        · by_cases hclosing : c ∈ [')', ']', '\x7d']
          · have hc : c ∈ brackets ∧ c ≠ ':' := by
              simp only [List.mem_cons, List.not_mem_nil, or_false] at hclosing
              rcases hclosing with rfl | rfl | rfl <;> decide
            obtain rfl := hone hc.1
            rintro (⟨heq, -⟩ | hends)
            · exact hc.2 (hcolon.1 (Token.symbol.inj heq))
            · rw [hdepth, if_neg hopening, if_pos hclosing] at hends
              cases d with
              | zero => exact hends
              | succ d =>
                rw [keyEnd?, if_neg fun h => hc.2 h.2, if_neg fun h => absurd h.1 (Nat.succ_ne_zero d), hnext,
                  bracketDepth_eq, if_neg hopening, if_pos hclosing] at hk
                refine ih ?_ hk hends
                change bracketDepth (d + 1 + 1) c = d + 1
                rw [bracketDepth_eq, if_neg hopening, if_pos hclosing]
                rfl
          · have hc : c ∉ brackets := by
              intro hmem
              have hall : ∀ a ∈ brackets, a ∈ ['(', '[', '\x7b'] ∨ a ∈ [')', ']', '\x7d'] := List.all_iff_forall_prop.1 (by decide)
              exact (hall c hmem).elim hopening hclosing
            have hsame : depthAfter (d + 1) (.symbol y) (c :: s) = d + 1 := (hflat hc).depth _
            rintro (⟨heq, hd⟩ | hends)
            · have hcolon := hcolon.1 (Token.symbol.inj heq)
              rw [keyEnd?, if_pos ⟨hd, hcolon⟩] at hk
              cases hk
            · rw [hdepth, if_neg hopening, if_neg hclosing] at hends
              refine ih hsame ?_ hends
              have hcolon' : d = 0 → c ≠ ':' := by
                rintro hd rfl
                rw [keyEnd?, if_pos ⟨hd, rfl⟩] at hk
                cases hk
              rw [keyEnd?_flat _ (hflat hc) hcolon'] at hk
              rcases symbol?_length hy with rfl | ⟨rfl, -, c', r, rfl, hc'⟩
              · exact hk
              · have hflat' : isFlat c' ∧ c' ≠ ':' := by
                  simp only [List.mem_cons, List.not_mem_nil, or_false] at hc'
                  rcases hc' with rfl | rfl | rfl <;> exact ⟨by unfold isFlat; decide, by decide⟩
                rwa [keyEnd?_flat _ hflat'.1 fun _ => hflat'.2] at hk
    | @string q r body rest x hq hb hx =>
      refine hcalm (fun d => rfl) (by rintro ⟨⟩) rfl ?_
      have hc : q ≠ ':' ∧ q ∉ [')', ']', '\x7d'] ∧ Inside.next .code q = .string q false ∧
          bracketDepth d q = d := by
        rcases hq with rfl | rfl <;> exact ⟨by decide, by decide, by decide, by simp [bracketDepth]⟩
      rw [keyEnd?, if_neg fun h => hc.1 h.2, if_neg fun h => hc.2.1 h.2, hc.2.2.1, hc.2.2.2,
        keyEnd?_string hb] at hk
      rw [(stringBody?_split hb).2]
      exact hk
    | @number c r t n hc hn =>
      have ht : (∀ d, t.depth? d = some d) ∧ t ≠ .symbol .colon ∧ depthAfter (d + 1) t (c :: r) = d + 1 := by
        rcases number_token hn with ⟨k, rfl⟩ | ⟨x, rfl⟩ <;> exact ⟨fun d => rfl, (by rintro ⟨⟩), rfl⟩
      refine hcalm ht.1 ht.2.1 ht.2.2 ?_
      rwa [keyEnd?_calm_drop (number_calm hn)] at hk
    | @name c r hc =>
      refine hcalm (fun d => rfl) (by rintro ⟨⟩) rfl ?_
      rwa [keyEnd?_calm_drop] at hk
      intro a ha
      rw [(takeWhile_split Text.isNamePart (c :: r)).1] at ha
      exact .inl (List.mem_takeWhile_imp ha)

end SecureLayout.Template
