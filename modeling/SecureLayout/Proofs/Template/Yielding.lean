import SecureLayout.Proofs.Template.Consumption

/-!
Parsers that succeed on tokens told in advance. Main statement: where an expression is a single operand, every level of
operators goes over it, `yields_expression`.
-/

namespace SecureLayout.Template

namespace Parser

variable {α β : Type} {p : Parser α} {f : α → Parser β} {ts us rest : List Token} {t : Token} {P : α → Prop}
  {Q : β → Prop}

/-- The parser takes these tokens in front of those, and what it answers is as told. -/
def Yields (p : Parser α) (ts rest : List Token) (P : α → Prop) : Prop :=
  ∀ s : ParserState, s.fault = none → s.tokens = ts ++ rest →
    ∃ a s', p s = .ok (a, s') ∧ s'.fault = none ∧ s'.tokens = rest ∧ P a

theorem yields_pure {a : α} (h : P a) : Yields (pure a) [] rest P :=
  fun s hfault htokens => ⟨a, s, rfl, hfault, htokens, h⟩

theorem Yields.mono {P' : α → Prop} (h : Yields p ts rest P) (himp : ∀ a, P a → P' a) : Yields p ts rest P' := by
  intro s hfault htokens
  obtain ⟨a, s', hp, hfault', htokens', ha⟩ := h s hfault htokens
  exact ⟨a, s', hp, hfault', htokens', himp a ha⟩

theorem Yields.bind (h : Yields p ts (us ++ rest) P) (hf : ∀ a, P a → Yields (f a) us rest Q) :
    Yields (p >>= f) (ts ++ us) rest Q := by
  intro s hfault htokens
  rw [List.append_assoc] at htokens
  obtain ⟨a, s', hp, hfault', htokens', ha⟩ := h s hfault htokens
  obtain ⟨b, s'', hb, hrest⟩ := hf a ha s' hfault' htokens'
  exact ⟨b, s'', bind_ok.2 ⟨a, s', hp, hb⟩, hrest⟩

/-- A parser that only looks comes first. -/
theorem Yields.look (h : Yields p [] (us ++ rest) P) (hf : ∀ a, P a → Yields (f a) us rest Q) :
    Yields (p >>= f) us rest Q := by
  rw [← List.nil_append us]
  exact h.bind hf

/-- A parser of one token comes first. -/
theorem Yields.one (h : Yields p [t] (us ++ rest) P) (hf : ∀ a, P a → Yields (f a) us rest Q) :
    Yields (p >>= f) (t :: us) rest Q :=
  (h.bind hf : Yields (p >>= f) ([t] ++ us) rest Q)

/-- A parser comes last that looks only. -/
theorem Yields.last (h : Yields p ts rest P) (hf : ∀ a, P a → Yields (f a) [] rest Q) : Yields (p >>= f) ts rest Q := by
  rw [← List.append_nil ts]
  exact Yields.bind h hf

/-! ### Single tokens -/

theorem yields_nextLine : Yields nextLine [] rest fun _ => True :=
  fun s hfault htokens => ⟨_, s, rfl, hfault, htokens, trivial⟩

theorem yields_tokensLeft : Yields tokensLeft [] rest (· = rest.length) := by
  intro s hfault htokens
  refine ⟨_, s, rfl, hfault, htokens, ?_⟩
  rw [← List.nil_append rest, ← htokens, ParserState.tokens, List.length_map]

theorem yields_peek : Yields peek [] rest (· = rest.head?) := by
  intro s hfault htokens
  refine ⟨_, s, ?_, hfault, htokens, rfl⟩
  unfold ParserState.tokens at htokens
  unfold peek
  cases hs : s.rest with
  | nil =>
    rw [hs] at htokens
    obtain rfl : [] = rest := htokens
    dsimp only
    rw [hfault]
    rfl
  | cons a r =>
    rw [hs] at htokens
    obtain rfl : a.token :: r.map Spanned.token = rest := htokens
    rfl

theorem yields_next : Yields next [t] rest (· = some t) := by
  intro s hfault htokens
  cases hs : s.rest with
  | nil =>
    rw [ParserState.tokens, hs] at htokens
    cases htokens
  | cons a r =>
    rw [ParserState.tokens, hs] at htokens
    obtain ⟨rfl, hrest⟩ := List.cons.inj htokens
    have hpeek : peek s = .ok (some a.token, s) := by rw [peek, hs]
    refine ⟨some a.token, { s with rest := r, lastLine := a.line }, ?_, hfault, hrest, rfl⟩
    have hmodify : ∀ g : ParserState → ParserState, (modify g : Parser PUnit) s = .ok ((), g s) := fun _ => rfl
    refine bind_ok.2 ⟨some a.token, s, hpeek, bind_ok.2 ⟨(), _, hmodify _, ?_⟩⟩
    rw [hs]
    rfl

theorem yields_isNext (t : Token) : Yields (isNext t) [] rest (· = (rest.head? == some t)) := by
  refine Yields.look yields_peek ?_
  rintro _ rfl
  exact yields_pure rfl

theorem yields_skip : Yields (skip t) [t] rest (· = true) := by
  refine Yields.look (yields_isNext t) ?_
  rintro _ rfl
  rw [List.singleton_append, List.head?_cons, beq_self_eq_true, if_pos rfl]
  exact Yields.one yields_next fun _ _ => yields_pure rfl

theorem yields_skip_not (h : rest.head? ≠ some t) : Yields (skip t) [] rest (· = false) := by
  refine Yields.look (yields_isNext t) ?_
  rintro _ rfl
  rw [List.nil_append, beq_false_of_ne h, if_neg Bool.false_ne_true]
  exact yields_pure rfl

theorem yields_expect (expected : String) : Yields (expect t expected) [t] rest fun _ => True := by
  refine Yields.last yields_next ?_
  rintro _ rfl
  rw [beq_self_eq_true, if_pos rfl]
  exact yields_pure trivial

/-! ### Operators that are not there -/

/-- Tokens that no expression goes on with. -/
def enders : List Token :=
  [.symbol .comma, .symbol .colon, .symbol .parenClose, .symbol .bracketClose, .symbol .braceClose, .exprEnd]

variable {lower expr plain prim other : Parser Expr} {R : Expr → Prop}

theorem yields_leftToRight {op? : Token → Option BinaryOp} (hop : op? t = none) (h : Yields lower ts (t :: rest) R) :
    Yields (leftToRight op? lower) ts (t :: rest) R := by
  refine Yields.look yields_nextLine fun line _ => Yields.last h fun e he => Yields.look yields_tokensLeft ?_
  rintro _ rfl
  refine Yields.last yields_peek ?_
  rintro _ rfl
  rw [List.head?_cons, Option.bind_some, hop]
  exact yields_pure he

theorem enders_quiet (ht : t ∈ enders) : powerOp? t = none ∧ productOp? t = none ∧ concatOp? t = none ∧
    sumOp? t = none ∧ andOp? t = none ∧ orOp? t = none := by
  simp only [enders, List.mem_cons, List.not_mem_nil, or_false] at ht
  rcases ht with rfl | rfl | rfl | rfl | rfl | rfl <;> exact ⟨rfl, rfl, rfl, rfl, rfl, rfl⟩

theorem yields_comparison? (ht : t ∈ enders) : Yields comparison? [] (t :: rest) (· = none) := by
  refine Yields.look yields_peek ?_
  rintro _ rfl
  simp only [enders, List.mem_cons, List.not_mem_nil, or_false] at ht
  rcases ht with rfl | rfl | rfl | rfl | rfl | rfl <;> exact yields_pure rfl

theorem yields_compared (ht : t ∈ enders) (h : Yields lower ts (t :: rest) R) :
    Yields (compared lower) ts (t :: rest) R := by
  refine Yields.look yields_nextLine fun line _ => Yields.last h fun e he => Yields.look yields_tokensLeft ?_
  rintro _ rfl
  refine Yields.last (P := (· = [])) (Yields.look (yields_comparison? ht) ?_) ?_
  · rintro _ rfl
    exact yields_pure rfl
  · rintro _ rfl
    exact yields_pure he

theorem yields_inverted (hne : (ts ++ t :: rest).head? ≠ some (.name "not")) (h : Yields lower ts (t :: rest) R)
    (fuel : Nat) : Yields (inverted lower fuel) ts (t :: rest) R := by
  cases fuel with
  | zero => exact h
  | succ fuel =>
    refine Yields.look yields_nextLine fun line _ => Yields.look (yields_skip_not hne) ?_
    rintro _ rfl
    exact h

theorem yields_logical (ht : t ∈ enders) (hne : (ts ++ t :: rest).head? ≠ some (.name "not"))
    (h : Yields lower ts (t :: rest) R) : Yields (logical lower) ts (t :: rest) R := by
  obtain ⟨hpower, hproduct, hconcat, hsum, hand, hor⟩ := enders_quiet ht
  have hproducts := yields_leftToRight hproduct (yields_leftToRight hpower h)
  have hsums := yields_leftToRight hsum (yields_leftToRight hconcat hproducts)
  refine yields_leftToRight hor (yields_leftToRight hand (Yields.look yields_tokensLeft ?_))
  rintro _ rfl
  exact yields_inverted hne (yields_compared ht hsums) _

theorem yields_choices (ht : t ∈ enders) (h : Yields plain ts (t :: rest) R) (fuel : Nat) :
    Yields (choices plain fuel) ts (t :: rest) R := by
  cases fuel with
  | zero => exact h
  | succ fuel =>
    refine Yields.look yields_nextLine fun line _ => Yields.last h fun e he => ?_
    cases fuel with
    | zero => exact yields_pure he
    | succ n =>
      have hif : (t :: rest).head? ≠ some (.name "if") := by
        rintro ⟨⟩
        revert ht
        decide
      refine Yields.look (yields_skip_not hif) ?_
      rintro _ rfl
      exact yields_pure he

theorem yields_withFilters (ht : t ∈ enders) (h : Yields (operand expr plain prim) ts (t :: rest) R) :
    Yields (withFilters expr plain prim) ts (t :: rest) R := by
  refine Yields.last h fun e he => Yields.look yields_tokensLeft ?_
  rintro _ rfl
  cases hfuel : (t :: rest).length with
  | zero => cases hfuel
  | succ fuel =>
    refine Yields.last yields_peek ?_
    rintro _ rfl
    simp only [enders, List.mem_cons, List.not_mem_nil, or_false] at ht
    rcases ht with rfl | rfl | rfl | rfl | rfl | rfl <;> exact yields_pure he

/-- An operand that ends an expression is the expression. -/
theorem yields_expression (ht : t ∈ enders) (hne : (ts ++ t :: rest).head? ≠ some (.name "not")) {room : Nat}
    (h : Yields (operand (expression true (room + 1)) (expression false (room + 1)) (primary (expression true room))) ts
      (t :: rest) R) (choice : Bool) : Yields (expression choice (room + 2)) ts (t :: rest) R := by
  have hplain := yields_logical ht hne (yields_withFilters ht h)
  cases choice with
  | false => exact hplain
  | true =>
    refine Yields.look yields_tokensLeft ?_
    rintro _ rfl
    exact yields_choices ht hplain _

/-! ### Operands -/

/-- A primary that ends an expression is the operand. -/
theorem yields_suffixes_none (ht : t ∈ enders) {e : Expr} (he : R e) (line fuel : Nat) :
    Yields (suffixes expr plain line fuel e) [] (t :: rest) R := by
  cases fuel with
  | zero => exact yields_pure he
  | succ fuel =>
    refine Yields.look yields_peek ?_
    rintro _ rfl
    simp only [enders, List.mem_cons, List.not_mem_nil, or_false] at ht
    rcases ht with rfl | rfl | rfl | rfl | rfl | rfl <;> exact yields_pure he

theorem yields_negated_none (hne : (ts ++ rest).head? ≠ some (.symbol .minus)) (h : Yields prim ts rest R)
    (fuel : Nat) : Yields (negated prim fuel) ts rest R := by
  cases fuel with
  | zero => exact h
  | succ fuel =>
    refine Yields.look yields_nextLine fun line _ => Yields.look (yields_skip_not hne) ?_
    rintro _ rfl
    exact h

/-- One minus in front of a primary. -/
theorem yields_negated (hne : (ts ++ rest).head? ≠ some (.symbol .minus)) (h : Yields prim ts rest R) {S : Expr → Prop}
    (himp : ∀ line e, R e → S (.unary line .negate e)) (fuel : Nat) :
    Yields (negated prim (fuel + 1)) (.symbol .minus :: ts) rest S := by
  refine Yields.look yields_nextLine fun line _ => Yields.one yields_skip ?_
  rintro _ rfl
  exact Yields.last (yields_negated_none hne h fuel) fun e he => yields_pure (himp line e he)

/-- The rest of an operand behind its primary. -/
theorem yields_operand (ts us : List Token) {S : Expr → Prop}
    (h : ∀ fuel, Yields (negated prim (fuel + 1)) ts (us ++ rest) S)
    (hne : (ts ++ (us ++ rest)) ≠ [])
    (hsuffixes : ∀ line e, S e → Yields (suffixes expr plain line (us ++ rest).length e) us rest R) :
    Yields (operand expr plain prim) (ts ++ us) rest R := by
  refine Yields.look yields_tokensLeft ?_
  rintro _ rfl
  refine Yields.look yields_nextLine fun line _ => ?_
  rw [List.append_assoc]
  cases hfuel : (ts ++ (us ++ rest)).length with
  | zero => exact absurd (List.length_eq_zero_iff.1 hfuel) hne
  | succ fuel =>
    refine Yields.bind (h fuel) fun e he => Yields.look yields_tokensLeft ?_
    rintro _ rfl
    exact hsuffixes line e he

end Parser

end SecureLayout.Template
