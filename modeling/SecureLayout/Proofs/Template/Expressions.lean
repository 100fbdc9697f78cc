import SecureLayout.Proofs.Template.Consumption

/-!
Parsers of expressions, one after the other. Main statement: whatever an expression is read from, its
brackets match and its names stand in it.
-/

namespace SecureLayout.Template.Parser

open ParserState

variable {α β : Type} {s s' : ParserState}

/-- What a parser reads are words with matching brackets, among them the names of its result. -/
def Consumes (p : Parser α) (names : α → List String) : Prop :=
  ∀ s x s', p s = .ok (x, s') → Reads 0 0 s s' (names x)

/-! ### Symbols -/

def openings : List Symbol := [.parenOpen, .bracketOpen, .braceOpen]

def closings : List Symbol := [.parenClose, .bracketClose, .braceClose]

theorem took_symbol {y : Symbol} (h : Took (.symbol y) s s') (ho : y ∉ openings) (hc : y ∉ closings) :
    Reads 0 0 s s' [] := by
  refine h.word rfl fun d => ?_
  cases y <;> first
    | rfl
    | exact absurd (by decide) ho
    | exact absurd (by decide) hc

theorem took_opening {y : Symbol} (h : Took (.symbol y) s s') (hy : y ∈ openings) : Reads 0 1 s s' [] := by
  refine h.opening rfl fun d => ?_
  simp only [openings, List.mem_cons, List.not_mem_nil, or_false] at hy
  rcases hy with rfl | rfl | rfl <;> rfl

theorem took_closing {y : Symbol} (h : Took (.symbol y) s s') (hy : y ∈ closings) : Reads 1 0 s s' [] := by
  refine h.closing rfl fun d => ?_
  have hd : ¬ 1 + d = 0 := by omega
  have hsub : 1 + d - 1 = d := by omega
  simp only [closings, List.mem_cons, List.not_mem_nil, or_false] at hy
  rcases hy with rfl | rfl | rfl <;> simp only [Token.depth?, if_neg hd, hsub]

/-! ### Lists and arguments -/

variable {expr plain prim : Parser Expr}

theorem listUntil_go_reads {close : Symbol} (hclose : close ∈ closings) {item : Parser α}
    {names : α → List String} (hitem : Consumes item names) {fuel : Nat} {first : Bool} {xs : List α}
    (h : listUntil.go close item fuel first s = .ok (xs, s')) : Reads 1 0 s s' (xs.flatMap names) := by
  induction fuel generalizing first s xs with
  | zero => exact (fail_ok.1 h).elim
  | succ fuel ih =>
    rw [listUntil.go] at h
    obtain ⟨b, s1, hskip, h⟩ := bind_ok.1 h
    rcases skip_ok hskip with ⟨rfl, htook⟩ | ⟨rfl, rfl⟩
    · obtain ⟨rfl, rfl⟩ := pure_ok.1 h
      exact took_closing htook hclose
    · have htail : ∀ {s2 : ParserState}, Reads 1 1 s s2 [] →
          (do
            let x ← item
            return x :: (← listUntil.go close item fuel false)) s2 = .ok (xs, s') →
          Reads 1 0 s s' (xs.flatMap names) := by
        intro s2 hs2 h
        obtain ⟨x, s3, hx, h⟩ := bind_ok.1 h
        obtain ⟨more, s4, hmore, h⟩ := bind_ok.1 h
        obtain ⟨rfl, rfl⟩ := pure_ok.1 h
        exact (hs2.trans ((hitem _ _ _ hx).deeper.trans (ih hmore))).mono (by simp)
      cases first with
      | true => exact htail (.refl 1 s) h
      | false =>
        obtain ⟨_, s2, hcomma, h⟩ := bind_ok.1 h
        have hcomma := (took_symbol (expect_ok hcomma) (by decide) (by decide)).deeper
        obtain ⟨b, s3, hskip, h⟩ := bind_ok.1 h
        rcases skip_ok hskip with ⟨rfl, htook⟩ | ⟨rfl, rfl⟩
        · obtain ⟨rfl, rfl⟩ := pure_ok.1 h
          exact hcomma.trans (took_closing htook hclose)
        · exact htail hcomma h

theorem listUntil_reads {close : Symbol} (hclose : close ∈ closings) {item : Parser α}
    {names : α → List String} (hitem : Consumes item names) {xs : List α}
    (h : listUntil close item s = .ok (xs, s')) : Reads 1 0 s s' (xs.flatMap names) := by
  obtain ⟨fuel, s1, hfuel, h⟩ := bind_ok.1 h
  obtain ⟨-, rfl⟩ := tokensLeft_ok hfuel
  exact listUntil_go_reads hclose hitem h

theorem argument_reads (hexpr : Consumes expr Expr.names) (hplain : Consumes plain Expr.names)
    (named : Bool) : Consumes (argument expr plain named) Arg.names := by
  intro s x s' h
  obtain ⟨b, s1, hskip, h⟩ := bind_ok.1 h
  rcases skip_ok hskip with ⟨rfl, htook⟩ | ⟨rfl, rfl⟩
  · obtain ⟨e, s2, he, h⟩ := bind_ok.1 h
    obtain ⟨rfl, rfl⟩ := pure_ok.1 h
    exact (took_symbol htook (by decide) (by decide)).trans (hexpr _ _ _ he)
  · obtain ⟨b, s2, hskip, h⟩ := bind_ok.1 h
    rcases skip_ok hskip with ⟨rfl, htook⟩ | ⟨rfl, rfl⟩
    · obtain ⟨e, s3, he, h⟩ := bind_ok.1 h
      obtain ⟨rfl, rfl⟩ := pure_ok.1 h
      exact (took_symbol htook (by decide) (by decide)).trans (hexpr _ _ _ he)
    · obtain ⟨e, s3, he, h⟩ := bind_ok.1 h
      have he := hexpr _ _ _ he
      have hpositional : ∀ {s4 : ParserState}, (if named = true then fail "non-keyword arg after keyword arg"
          else (pure (.positional e) : Parser Arg)) s4 = .ok (x, s') → Reads 0 0 s s4 e.names →
          Reads 0 0 s s' x.names := by
        intro s4 h hs4
        split at h
        · exact (fail_ok.1 h).elim
        · obtain ⟨rfl, rfl⟩ := pure_ok.1 h
          exact hs4
      split at h
      · next line n =>
        obtain ⟨b, s4, hskip, h⟩ := bind_ok.1 h
        rcases skip_ok hskip with ⟨rfl, htook⟩ | ⟨rfl, rfl⟩
        · obtain ⟨v, s5, hv, h⟩ := bind_ok.1 h
          obtain ⟨rfl, rfl⟩ := pure_ok.1 h
          exact (he.trans ((took_symbol htook (by decide) (by decide)).trans (hplain _ _ _ hv))).mono
            (by simp [Expr.names, Arg.names])
        · exact hpositional h he
      · exact hpositional h he

theorem arguments_go_reads (hexpr : Consumes expr Expr.names) (hplain : Consumes plain Expr.names)
    {fuel : Nat} {first named : Bool} {args : List Arg}
    (h : arguments.go expr plain fuel first named s = .ok (args, s')) : Reads 1 0 s s' (argsNames args) := by
  induction fuel generalizing first named s args with
  | zero => exact (fail_ok.1 h).elim
  | succ fuel ih =>
    rw [arguments.go] at h
    obtain ⟨b, s1, hskip, h⟩ := bind_ok.1 h
    rcases skip_ok hskip with ⟨rfl, htook⟩ | ⟨rfl, rfl⟩
    · obtain ⟨rfl, rfl⟩ := pure_ok.1 h
      exact (took_closing htook (by decide)).mono (by simp [argsNames])
    · have htail : ∀ {s2 : ParserState} {after : Arg → Bool}, Reads 1 1 s s2 [] →
          (do
            let a ← argument expr plain named
            return a :: (← arguments.go expr plain fuel false (after a))) s2 = .ok (args, s') →
          Reads 1 0 s s' (argsNames args) := by
        intro s2 after hs2 h
        obtain ⟨a, s3, ha, h⟩ := bind_ok.1 h
        obtain ⟨more, s4, hmore, h⟩ := bind_ok.1 h
        obtain ⟨rfl, rfl⟩ := pure_ok.1 h
        exact (hs2.trans ((argument_reads hexpr hplain named _ _ _ ha).deeper.trans (ih hmore))).mono
          (by simp)
      cases first with
      | true => exact htail (.refl 1 s) h
      | false =>
        obtain ⟨_, s2, hcomma, h⟩ := bind_ok.1 h
        have hcomma := (took_symbol (expect_ok hcomma) (by decide) (by decide)).deeper
        obtain ⟨b, s3, hskip, h⟩ := bind_ok.1 h
        rcases skip_ok hskip with ⟨rfl, htook⟩ | ⟨rfl, rfl⟩
        · obtain ⟨rfl, rfl⟩ := pure_ok.1 h
          exact (hcomma.trans (took_closing htook (by decide))).mono (by simp [argsNames])
        · exact htail hcomma h

theorem arguments_reads (hexpr : Consumes expr Expr.names) (hplain : Consumes plain Expr.names) :
    Consumes (arguments expr plain) argsNames := by
  intro s args s' h
  obtain ⟨_, s1, hopen, h⟩ := bind_ok.1 h
  obtain ⟨fuel, s2, hfuel, h⟩ := bind_ok.1 h
  obtain ⟨-, rfl⟩ := tokensLeft_ok hfuel
  exact (took_opening (expect_ok hopen) (by decide)).trans (arguments_go_reads hexpr hplain h)

theorem parenthesized_reads (hexpr : Consumes expr Expr.names) {line : Nat} {e : Expr}
    (h : parenthesized expr line s = .ok (e, s')) : Reads 1 0 s s' e.names := by
  obtain ⟨b, s1, hskip, h⟩ := bind_ok.1 h
  rcases skip_ok hskip with ⟨rfl, htook⟩ | ⟨rfl, rfl⟩
  · obtain ⟨rfl, rfl⟩ := pure_ok.1 h
    exact (took_closing htook (by decide)).mono (by simp [Expr.names, exprsNames])
  · obtain ⟨x, s2, hx, h⟩ := bind_ok.1 h
    have hx := (hexpr _ _ _ hx).deeper
    obtain ⟨b, s3, hnext, h⟩ := bind_ok.1 h
    obtain ⟨rfl, rfl⟩ := isNext_ok hnext
    split at h
    · next hcomma =>
      obtain ⟨_, s4, htook, h⟩ := bind_ok.1 h
      have htook := took_symbol (next_of_peek (by simpa using hcomma) htook) (by decide) (by decide)
      obtain ⟨xs, s5, hxs, h⟩ := bind_ok.1 h
      obtain ⟨rfl, rfl⟩ := pure_ok.1 h
      exact (hx.trans (htook.deeper.trans (listUntil_reads (by decide) hexpr hxs))).mono
        (by simp [Expr.names, exprsNames, exprsNames_eq])
    · obtain ⟨_, s4, htook, h⟩ := bind_ok.1 h
      obtain ⟨rfl, rfl⟩ := pure_ok.1 h
      exact (hx.trans (took_closing (expect_ok htook) (by decide))).mono (by simp)

theorem mapEntry_reads (hexpr : Consumes expr Expr.names) :
    Consumes (mapEntry expr) fun p => p.1.names ++ p.2.names := by
  intro s x s' h
  obtain ⟨k, s1, hk, h⟩ := bind_ok.1 h
  obtain ⟨_, s2, hcolon, h⟩ := bind_ok.1 h
  obtain ⟨v, s3, hv, h⟩ := bind_ok.1 h
  obtain ⟨rfl, rfl⟩ := pure_ok.1 h
  have hcolon := took_symbol (expect_ok hcolon) (by decide) (by decide)
  exact ((hexpr _ _ _ hk).trans (hcolon.trans (hexpr _ _ _ hv))).mono (by simp)

/-! ### Operands -/

theorem primary_reads (hexpr : Consumes expr Expr.names) : Consumes (primary expr) Expr.names := by
  intro s e s' h
  obtain ⟨line, s1, hline, h⟩ := bind_ok.1 h
  cases nextLine_ok hline
  obtain ⟨t, s2, ht, h⟩ := bind_ok.1 h
  cases t with
  | none => exact (unexpected_ok.1 h).elim
  | some t =>
    have htook := next_some ht
    cases t with
    | name n =>
      have hname := htook.name
      dsimp only at h
      split at h <;> obtain ⟨rfl, rfl⟩ := pure_ok.1 h <;> exact hname.mono (by simp [Expr.names])
    | string x =>
      obtain ⟨rfl, rfl⟩ := pure_ok.1 h
      exact htook.word rfl fun _ => rfl
    | int n =>
      obtain ⟨rfl, rfl⟩ := pure_ok.1 h
      exact htook.word rfl fun _ => rfl
    | float x =>
      obtain ⟨rfl, rfl⟩ := pure_ok.1 h
      exact htook.word rfl fun _ => rfl
    | symbol y =>
      cases y with
      | parenOpen =>
        exact ((took_opening htook (by decide)).trans (parenthesized_reads hexpr h)).mono (by simp)
      | bracketOpen =>
        obtain ⟨xs, s3, hxs, h⟩ := bind_ok.1 h
        obtain ⟨rfl, rfl⟩ := pure_ok.1 h
        exact ((took_opening htook (by decide)).trans (listUntil_reads (by decide) hexpr hxs)).mono
          (by simp [Expr.names, exprsNames_eq])
      | braceOpen =>
        obtain ⟨xs, s3, hxs, h⟩ := bind_ok.1 h
        obtain ⟨rfl, rfl⟩ := pure_ok.1 h
        exact ((took_opening htook (by decide)).trans
          (listUntil_reads (by decide) (mapEntry_reads hexpr) hxs)).mono (by simp [Expr.names, pairsNames_eq])
      | _ => exact (fail_ok.1 h).elim
    | _ => exact (fail_ok.1 h).elim

theorem slicePart_reads (hexpr : Consumes expr Expr.names) (colonEnds : Bool) :
    Consumes (slicePart expr colonEnds) optionNames := by
  have hsome : ∀ {s s' : ParserState} {x : Option Expr},
      (do return some (← expr) : Parser (Option Expr)) s = .ok (x, s') → Reads 0 0 s s' (optionNames x) := by
    intro s s' x h
    obtain ⟨e, s1, he, h⟩ := bind_ok.1 h
    obtain ⟨rfl, rfl⟩ := pure_ok.1 h
    exact hexpr _ _ _ he
  intro s x s' h
  obtain ⟨t, s1, hpeek, h⟩ := bind_ok.1 h
  obtain ⟨ht, rfl⟩ := peek_ok hpeek
  split at h
  · obtain ⟨rfl, rfl⟩ := pure_ok.1 h
    exact .refl 0 _
  · split at h
    · obtain ⟨rfl, rfl⟩ := pure_ok.1 h
      exact .refl 0 _
    · exact hsome h
  · exact hsome h

/-- What a subscript holds after its first part. -/
theorem subscript_rest_reads (hexpr : Consumes expr Expr.names) {line : Nat} {e x : Expr} {s1 : ParserState}
    {start : Option Expr} (hstart : Reads 1 1 s s1 (optionNames start))
    (h : (do
      if ← skipSymbol .colon then
        let stop ← slicePart expr true
        let step ← if ← skipSymbol .colon then slicePart expr false else pure none
        expectSymbol .bracketClose
        return .slice line e start stop step
      else
        expectSymbol .bracketClose
        match start with
        | some key => return .item line e key
        | none => fail "empty subscript" : Parser Expr) s1 = .ok (x, s')) :
    ∃ ns, Reads 1 0 s s' ns ∧ x.names ⊆ e.names ++ ns := by
  obtain ⟨b, s2, hskip, h⟩ := bind_ok.1 h
  rcases skip_ok hskip with ⟨rfl, htook⟩ | ⟨rfl, rfl⟩
  · have hcolon := (took_symbol htook (by decide) (by decide)).deeper
    obtain ⟨stop, s3, hstop, h⟩ := bind_ok.1 h
    have hstop := (slicePart_reads hexpr true _ _ _ hstop).deeper
    have hend : ∀ {s4 : ParserState} {step : Option Expr}, Reads 1 1 s3 s4 (optionNames step) →
        (do
          expectSymbol .bracketClose
          return .slice line e start stop step : Parser Expr) s4 = .ok (x, s') →
        ∃ ns, Reads 1 0 s s' ns ∧ x.names ⊆ e.names ++ ns := by
      intro s4 step hstep h
      obtain ⟨_, s5, hclose, h⟩ := bind_ok.1 h
      obtain ⟨rfl, rfl⟩ := pure_ok.1 h
      have hclose := took_closing (expect_ok hclose) (by decide)
      refine ⟨_, hstart.trans (hcolon.trans (hstop.trans (hstep.trans hclose))), ?_⟩
      simp [Expr.names]
    obtain ⟨b, s4, hskip, h⟩ := bind_ok.1 h
    rcases skip_ok hskip with ⟨rfl, htook⟩ | ⟨rfl, rfl⟩
    · obtain ⟨step, s5, hstep, h⟩ := bind_ok.1 h
      exact hend ((took_symbol htook (by decide) (by decide)).deeper.trans
        (slicePart_reads hexpr false _ _ _ hstep).deeper) h
    · exact hend (.refl 1 _) h
  · obtain ⟨_, s3, hclose, h⟩ := bind_ok.1 h
    have hclose := took_closing (expect_ok hclose) (by decide)
    cases start with
    | none => exact (fail_ok.1 h).elim
    | some key =>
      obtain ⟨rfl, rfl⟩ := pure_ok.1 h
      exact ⟨_, hstart.trans hclose, by simp [Expr.names, optionNames]⟩

theorem subscript_reads (hexpr : Consumes expr Expr.names) {line : Nat} {e x : Expr}
    (h : subscript expr line e s = .ok (x, s')) : ∃ ns, Reads 1 0 s s' ns ∧ x.names ⊆ e.names ++ ns := by
  obtain ⟨b, s1, hnext, h⟩ := bind_ok.1 h
  obtain ⟨rfl, rfl⟩ := isNext_ok hnext
  split at h
  · exact subscript_rest_reads hexpr (.refl 1 s) h
  · obtain ⟨key, s2, hkey, h⟩ := bind_ok.1 h
    exact subscript_rest_reads hexpr (hexpr _ _ _ hkey).deeper h

theorem suffixes_reads (hexpr : Consumes expr Expr.names) (hplain : Consumes plain Expr.names) {line fuel : Nat}
    {e x : Expr} (h : suffixes expr plain line fuel e s = .ok (x, s')) :
    ∃ ns, Reads 0 0 s s' ns ∧ x.names ⊆ e.names ++ ns := by
  induction fuel generalizing e s with
  | zero =>
    obtain ⟨rfl, rfl⟩ := pure_ok.1 h
    exact ⟨[], .refl 0 _, by simp⟩
  | succ fuel ih =>
    rw [suffixes] at h
    obtain ⟨t, s1, hpeek, h⟩ := bind_ok.1 h
    obtain ⟨ht, rfl⟩ := peek_ok hpeek
    split at h
    · obtain ⟨_, s2, htook, h⟩ := bind_ok.1 h
      have hdot := took_symbol (next_of_peek ht.symm htook) (by decide) (by decide)
      obtain ⟨keyLine, s3, hline, h⟩ := bind_ok.1 h
      cases nextLine_ok hline
      obtain ⟨t, s4, ht, h⟩ := bind_ok.1 h
      split at h
      · obtain ⟨ns, hns, hx⟩ := ih h
        refine ⟨_, hdot.trans ((next_some ht).name.trans hns), List.Subset.trans hx ?_⟩
        simp [Expr.names]
      · obtain ⟨ns, hns, hx⟩ := ih h
        refine ⟨_, hdot.trans (((next_some ht).word rfl fun _ => rfl).trans hns), List.Subset.trans hx ?_⟩
        simp [Expr.names]
      · exact (unexpected_ok.1 h).elim
    · obtain ⟨_, s2, htook, h⟩ := bind_ok.1 h
      have hopen := took_opening (next_of_peek ht.symm htook) (by decide)
      obtain ⟨e', s3, he', h⟩ := bind_ok.1 h
      obtain ⟨ms, hms, he'⟩ := subscript_reads hexpr he'
      obtain ⟨ns, hns, hx⟩ := ih h
      refine ⟨_, hopen.trans (hms.trans hns), List.Subset.trans hx ?_⟩
      intro n hn
      rcases List.mem_append.1 hn with hn | hn
      · have := he' hn
        simp at this ⊢
        tauto
      · simp [hn]
    · obtain ⟨args, s2, hargs, h⟩ := bind_ok.1 h
      have hargs := arguments_reads hexpr hplain _ _ _ hargs
      obtain ⟨ns, hns, hx⟩ := ih h
      refine ⟨_, hargs.trans hns, List.Subset.trans hx ?_⟩
      simp [Expr.names]
    · obtain ⟨rfl, rfl⟩ := pure_ok.1 h
      exact ⟨[], .refl 0 _, by simp⟩

theorem negated_reads (hprim : Consumes prim Expr.names) (fuel : Nat) :
    Consumes (negated prim fuel) Expr.names := by
  induction fuel with
  | zero => exact hprim
  | succ fuel ih =>
    intro s x s' h
    rw [negated] at h
    obtain ⟨line, s1, hline, h⟩ := bind_ok.1 h
    cases nextLine_ok hline
    obtain ⟨b, s2, hskip, h⟩ := bind_ok.1 h
    rcases skip_ok hskip with ⟨rfl, htook⟩ | ⟨rfl, rfl⟩
    · obtain ⟨e, s3, he, h⟩ := bind_ok.1 h
      obtain ⟨rfl, rfl⟩ := pure_ok.1 h
      exact (took_symbol htook (by decide) (by decide)).trans (ih _ _ _ he)
    · exact hprim _ _ _ h

theorem operand_reads (hexpr : Consumes expr Expr.names) (hplain : Consumes plain Expr.names)
    (hprim : Consumes prim Expr.names) : Consumes (operand expr plain prim) Expr.names := by
  intro s x s' h
  obtain ⟨fuel, s1, hfuel, h⟩ := bind_ok.1 h
  obtain ⟨-, rfl⟩ := tokensLeft_ok hfuel
  obtain ⟨line, s1, hline, h⟩ := bind_ok.1 h
  cases nextLine_ok hline
  obtain ⟨e, s1, he, h⟩ := bind_ok.1 h
  obtain ⟨fuel', s2, hfuel', h⟩ := bind_ok.1 h
  obtain ⟨-, rfl⟩ := tokensLeft_ok hfuel'
  obtain ⟨ns, hns, hx⟩ := suffixes_reads hexpr hplain h
  exact ((negated_reads hprim _ _ _ _ he).trans hns).mono hx

theorem argumentsIfAny_reads (hexpr : Consumes expr Expr.names) (hplain : Consumes plain Expr.names) :
    Consumes (argumentsIfAny expr plain) argsNames := by
  intro s x s' h
  obtain ⟨b, s1, hnext, h⟩ := bind_ok.1 h
  obtain ⟨rfl, rfl⟩ := isNext_ok hnext
  split at h
  · exact arguments_reads hexpr hplain _ _ _ h
  · obtain ⟨rfl, rfl⟩ := pure_ok.1 h
    exact (Reads.refl 0 _).mono (by simp [argsNames])

theorem testArguments_reads (hexpr : Consumes expr Expr.names) (hplain : Consumes plain Expr.names)
    (hprim : Consumes prim Expr.names) : Consumes (testArguments expr plain prim) argsNames := by
  intro s x s' h
  obtain ⟨t, s1, hpeek, h⟩ := bind_ok.1 h
  obtain ⟨ht, rfl⟩ := peek_ok hpeek
  split at h
  · exact arguments_reads hexpr hplain _ _ _ h
  · split at h
    · obtain ⟨e, s2, he, h⟩ := bind_ok.1 h
      obtain ⟨rfl, rfl⟩ := pure_ok.1 h
      exact (operand_reads hexpr hplain hprim _ _ _ he).mono (by simp [argsNames, Arg.names])
    · obtain ⟨rfl, rfl⟩ := pure_ok.1 h
      exact (Reads.refl 0 _).mono (by simp [argsNames])

theorem filtered_reads (hexpr : Consumes expr Expr.names) (hplain : Consumes plain Expr.names)
    (hprim : Consumes prim Expr.names) {fuel : Nat} {e x : Expr}
    (h : filtered expr plain prim fuel e s = .ok (x, s')) :
    ∃ ns, Reads 0 0 s s' ns ∧ x.names ⊆ e.names ++ ns := by
  induction fuel generalizing e s with
  | zero =>
    obtain ⟨rfl, rfl⟩ := pure_ok.1 h
    exact ⟨[], .refl 0 _, by simp⟩
  | succ fuel ih =>
    rw [filtered] at h
    obtain ⟨t, s1, hpeek, h⟩ := bind_ok.1 h
    obtain ⟨ht, rfl⟩ := peek_ok hpeek
    split at h
    · obtain ⟨_, s2, htook, h⟩ := bind_ok.1 h
      have hpipe := took_symbol (next_of_peek ht.symm htook) (by decide) (by decide)
      obtain ⟨line, s3, hline, h⟩ := bind_ok.1 h
      cases nextLine_ok hline
      obtain ⟨name, s3, hname, h⟩ := bind_ok.1 h
      obtain ⟨args, s4, hargs, h⟩ := bind_ok.1 h
      obtain ⟨ns, hns, hx⟩ := ih h
      refine ⟨_, hpipe.trans ((identifier_ok hname).name.trans
        ((argumentsIfAny_reads hexpr hplain _ _ _ hargs).trans hns)), List.Subset.trans hx ?_⟩
      simp [Expr.names, optionNames]
    · obtain ⟨_, s2, htook, h⟩ := bind_ok.1 h
      have his := (next_of_peek ht.symm htook).word rfl fun _ => rfl
      obtain ⟨inverted, s3, hnot, h⟩ := bind_ok.1 h
      have hnot : Reads 0 0 s2 s3 [] := by
        rcases skip_ok hnot with ⟨-, htook⟩ | ⟨-, rfl⟩
        · exact htook.word rfl fun _ => rfl
        · exact .refl 0 _
      obtain ⟨line, s4, hline, h⟩ := bind_ok.1 h
      cases nextLine_ok hline
      obtain ⟨name, s4, hname, h⟩ := bind_ok.1 h
      obtain ⟨args, s5, hargs, h⟩ := bind_ok.1 h
      obtain ⟨ns, hns, hx⟩ := ih h
      refine ⟨_, his.trans (hnot.trans ((identifier_ok hname).name.trans
        ((testArguments_reads hexpr hplain hprim _ _ _ hargs).trans hns))), List.Subset.trans hx ?_⟩
      cases inverted <;> simp [Expr.names]
    · obtain ⟨rfl, rfl⟩ := pure_ok.1 h
      exact ⟨[], .refl 0 _, by simp⟩

theorem withFilters_reads (hexpr : Consumes expr Expr.names) (hplain : Consumes plain Expr.names)
    (hprim : Consumes prim Expr.names) : Consumes (withFilters expr plain prim) Expr.names := by
  intro s x s' h
  obtain ⟨e, s1, he, h⟩ := bind_ok.1 h
  obtain ⟨fuel, s2, hfuel, h⟩ := bind_ok.1 h
  obtain ⟨-, rfl⟩ := tokensLeft_ok hfuel
  obtain ⟨ns, hns, hx⟩ := filtered_reads hexpr hplain hprim h
  exact ((operand_reads hexpr hplain hprim _ _ _ he).trans hns).mono hx

/-! ### Operators -/

/-- Tokens that are operators of a rank are words but no brackets. -/
def IsOperator (op? : Token → Option BinaryOp) : Prop :=
  ∀ t op, op? t = some op → t.isWord = true ∧ ∀ d, t.depth? d = some d

theorem isOperator_all : IsOperator powerOp? ∧ IsOperator productOp? ∧ IsOperator concatOp? ∧
    IsOperator sumOp? ∧ IsOperator andOp? ∧ IsOperator orOp? := by
  refine ⟨?_, ?_, ?_, ?_, ?_, ?_⟩ <;> intro t op h
  · unfold powerOp? at h
    split at h <;> first
      | exact ⟨rfl, fun _ => rfl⟩
      | cases h
  · unfold productOp? at h
    split at h <;> first
      | exact ⟨rfl, fun _ => rfl⟩
      | cases h
  · unfold concatOp? at h
    split at h <;> first
      | exact ⟨rfl, fun _ => rfl⟩
      | cases h
  · unfold sumOp? at h
    split at h <;> first
      | exact ⟨rfl, fun _ => rfl⟩
      | cases h
  · unfold andOp? at h
    split at h <;> first
      | exact ⟨rfl, fun _ => rfl⟩
      | cases h
  · unfold orOp? at h
    split at h <;> first
      | exact ⟨rfl, fun _ => rfl⟩
      | cases h

theorem leftToRight_go_reads {op? : Token → Option BinaryOp} (hop : IsOperator op?) {lower : Parser Expr}
    (hlower : Consumes lower Expr.names) {line fuel : Nat} {e x : Expr}
    (h : leftToRight.go op? lower line fuel e s = .ok (x, s')) :
    ∃ ns, Reads 0 0 s s' ns ∧ x.names ⊆ e.names ++ ns := by
  induction fuel generalizing e s with
  | zero =>
    obtain ⟨rfl, rfl⟩ := pure_ok.1 h
    exact ⟨[], .refl 0 _, by simp⟩
  | succ fuel ih =>
    rw [leftToRight.go] at h
    obtain ⟨t, s1, hpeek, h⟩ := bind_ok.1 h
    obtain ⟨ht, rfl⟩ := peek_ok hpeek
    cases t with
    | none =>
      obtain ⟨rfl, rfl⟩ := pure_ok.1 h
      exact ⟨[], .refl 0 _, by simp⟩
    | some t =>
      rw [Option.bind_some] at h
      cases hopt : op? t with
      | none =>
        rw [hopt] at h
        obtain ⟨rfl, rfl⟩ := pure_ok.1 h
        exact ⟨[], .refl 0 _, by simp⟩
      | some op =>
        rw [hopt] at h
        obtain ⟨_, s2, htook, h⟩ := bind_ok.1 h
        obtain ⟨hword, hdepth⟩ := hop t op hopt
        have htook := (next_of_peek ht.symm htook).word hword hdepth
        obtain ⟨right, s3, hright, h⟩ := bind_ok.1 h
        obtain ⟨ns, hns, hx⟩ := ih h
        refine ⟨_, htook.trans ((hlower _ _ _ hright).trans hns), List.Subset.trans hx ?_⟩
        simp [Expr.names]

theorem leftToRight_reads {op? : Token → Option BinaryOp} (hop : IsOperator op?) {lower : Parser Expr}
    (hlower : Consumes lower Expr.names) : Consumes (leftToRight op? lower) Expr.names := by
  intro s x s' h
  obtain ⟨line, s1, hline, h⟩ := bind_ok.1 h
  cases nextLine_ok hline
  obtain ⟨e, s1, he, h⟩ := bind_ok.1 h
  obtain ⟨fuel, s2, hfuel, h⟩ := bind_ok.1 h
  obtain ⟨-, rfl⟩ := tokensLeft_ok hfuel
  obtain ⟨ns, hns, hx⟩ := leftToRight_go_reads hop hlower h
  exact ((hlower _ _ _ he).trans hns).mono hx

theorem comparison?_reads : Consumes comparison? fun _ => [] := by
  have hone : ∀ {s s' : ParserState} {t : Token} {op : Comparison} {x : Option Comparison},
      some t = s.tokens.head? → t.isWord = true → (∀ d, t.depth? d = some d) →
      (do let _ ← next; return some op : Parser (Option Comparison)) s = .ok (x, s') → Reads 0 0 s s' [] := by
    intro s s' t op x ht hw hd h
    obtain ⟨_, s1, htook, h⟩ := bind_ok.1 h
    obtain ⟨-, rfl⟩ := pure_ok.1 h
    exact (next_of_peek ht.symm htook).word hw hd
  intro s x s' h
  obtain ⟨t, s1, hpeek, h⟩ := bind_ok.1 h
  obtain ⟨ht, rfl⟩ := peek_ok hpeek
  split at h
  · exact hone ht rfl (fun _ => rfl) h
  · exact hone ht rfl (fun _ => rfl) h
  · exact hone ht rfl (fun _ => rfl) h
  · exact hone ht rfl (fun _ => rfl) h
  · exact hone ht rfl (fun _ => rfl) h
  · exact hone ht rfl (fun _ => rfl) h
  · exact hone ht rfl (fun _ => rfl) h
  · obtain ⟨_, s1, htook, h⟩ := bind_ok.1 h
    have hnot := (next_of_peek ht.symm htook).word rfl fun _ => rfl
    obtain ⟨_, s2, hin, h⟩ := bind_ok.1 h
    obtain ⟨-, rfl⟩ := pure_ok.1 h
    exact hnot.trans ((expect_ok hin).word rfl fun _ => rfl)
  · obtain ⟨-, rfl⟩ := pure_ok.1 h
    exact .refl 0 _

theorem comparisons_reads {lower : Parser Expr} (hlower : Consumes lower Expr.names) (fuel : Nat) :
    Consumes (comparisons lower fuel) comparisonsNames := by
  induction fuel with
  | zero =>
    intro s x s' h
    obtain ⟨rfl, rfl⟩ := pure_ok.1 h
    exact (Reads.refl 0 _).mono (by simp [comparisonsNames])
  | succ fuel ih =>
    intro s x s' h
    rw [comparisons] at h
    obtain ⟨o, s1, ho, h⟩ := bind_ok.1 h
    have ho := comparison?_reads _ _ _ ho
    cases o with
    | none =>
      obtain ⟨rfl, rfl⟩ := pure_ok.1 h
      exact ho.mono (by simp [comparisonsNames])
    | some op =>
      obtain ⟨e, s2, he, h⟩ := bind_ok.1 h
      obtain ⟨more, s3, hmore, h⟩ := bind_ok.1 h
      obtain ⟨rfl, rfl⟩ := pure_ok.1 h
      exact (ho.trans ((hlower _ _ _ he).trans (ih _ _ _ hmore))).mono (by simp [comparisonsNames])

theorem compared_reads {lower : Parser Expr} (hlower : Consumes lower Expr.names) :
    Consumes (compared lower) Expr.names := by
  intro s x s' h
  obtain ⟨line, s1, hline, h⟩ := bind_ok.1 h
  cases nextLine_ok hline
  obtain ⟨e, s1, he, h⟩ := bind_ok.1 h
  obtain ⟨fuel, s2, hfuel, h⟩ := bind_ok.1 h
  obtain ⟨-, rfl⟩ := tokensLeft_ok hfuel
  obtain ⟨rest, s2, hrest, h⟩ := bind_ok.1 h
  have hall := (hlower _ _ _ he).trans (comparisons_reads hlower _ _ _ _ hrest)
  cases rest with
  | nil =>
    obtain ⟨rfl, rfl⟩ := pure_ok.1 h
    exact hall.mono (by simp)
  | cons p rest =>
    obtain ⟨rfl, rfl⟩ := pure_ok.1 h
    exact hall.mono (by simp [Expr.names])

theorem inverted_reads {lower : Parser Expr} (hlower : Consumes lower Expr.names) (fuel : Nat) :
    Consumes (inverted lower fuel) Expr.names := by
  induction fuel with
  | zero => exact hlower
  | succ fuel ih =>
    intro s x s' h
    rw [inverted] at h
    obtain ⟨line, s1, hline, h⟩ := bind_ok.1 h
    cases nextLine_ok hline
    obtain ⟨b, s2, hskip, h⟩ := bind_ok.1 h
    rcases skip_ok hskip with ⟨rfl, htook⟩ | ⟨rfl, rfl⟩
    · obtain ⟨e, s3, he, h⟩ := bind_ok.1 h
      obtain ⟨rfl, rfl⟩ := pure_ok.1 h
      exact (htook.word rfl fun _ => rfl).trans (ih _ _ _ he)
    · exact hlower _ _ _ h

theorem logical_reads {atom : Parser Expr} (hatom : Consumes atom Expr.names) :
    Consumes (logical atom) Expr.names := by
  obtain ⟨hpow, hproduct, hconcat, hsum, hand, hor⟩ := isOperator_all
  refine leftToRight_reads hor (leftToRight_reads hand ?_)
  intro s x s' h
  obtain ⟨fuel, s1, hfuel, h⟩ := bind_ok.1 h
  obtain ⟨-, rfl⟩ := tokensLeft_ok hfuel
  refine inverted_reads (compared_reads ?_) _ _ _ _ h
  exact leftToRight_reads hsum (leftToRight_reads hconcat
    (leftToRight_reads hproduct (leftToRight_reads hpow hatom)))

theorem choicesAfter_reads {alternative : Parser Expr} (hplain : Consumes plain Expr.names)
    (halternative : Consumes alternative Expr.names) {line n : Nat} {e x : Expr}
    (h : choicesAfter plain alternative line n e s = .ok (x, s')) :
    ∃ ns, Reads 0 0 s s' ns ∧ x.names ⊆ e.names ++ ns := by
  induction n generalizing e s with
  | zero =>
    rw [choicesAfter] at h
    obtain ⟨rfl, rfl⟩ := pure_ok.1 h
    exact ⟨[], .refl 0 _, by simp⟩
  | succ n ih =>
    rw [choicesAfter] at h
    obtain ⟨b, s1, hskip, h⟩ := bind_ok.1 h
    rcases skip_ok hskip with ⟨rfl, htook⟩ | ⟨rfl, rfl⟩
    · have hif := htook.word rfl fun _ => rfl
      obtain ⟨test, s2, htest, h⟩ := bind_ok.1 h
      have htest := hplain _ _ _ htest
      have hend : ∀ {s3 : ParserState} {no : Option Expr}, Reads 0 0 s2 s3 (optionNames no) →
          choicesAfter plain alternative line n (.choice line test e no) s3 = .ok (x, s') →
          ∃ ns, Reads 0 0 s s' ns ∧ x.names ⊆ e.names ++ ns := by
        intro s3 no hno h
        obtain ⟨ns, hns, hx⟩ := ih h
        refine ⟨_, hif.trans (htest.trans (hno.trans hns)), List.Subset.trans hx ?_⟩
        intro m hm
        simp [Expr.names] at hm ⊢
        tauto
      obtain ⟨b, s3, hskip, h⟩ := bind_ok.1 h
      rcases skip_ok hskip with ⟨rfl, htook⟩ | ⟨rfl, rfl⟩
      · obtain ⟨other, s4, hother, h⟩ := bind_ok.1 h
        exact hend ((htook.word rfl fun _ => rfl).trans (halternative _ _ _ hother)) h
      · exact hend (.refl 0 _) h
    · obtain ⟨rfl, rfl⟩ := pure_ok.1 h
      exact ⟨[], .refl 0 _, by simp⟩

theorem choices_reads (hplain : Consumes plain Expr.names) (fuel : Nat) :
    Consumes (choices plain fuel) Expr.names := by
  induction fuel with
  | zero =>
    intro s x s' h
    rw [choices] at h
    exact hplain _ _ _ h
  | succ fuel ih =>
    intro s x s' h
    rw [choices] at h
    obtain ⟨line, s1, hline, h⟩ := bind_ok.1 h
    cases nextLine_ok hline
    obtain ⟨e, s1, he, h⟩ := bind_ok.1 h
    obtain ⟨ns, hns, hx⟩ := choicesAfter_reads hplain ih h
    exact ((hplain _ _ _ he).trans hns).mono hx

/-- What an expression is read from. -/
theorem expression_reads (choice : Bool) (room : Nat) : Consumes (expression choice room) Expr.names := by
  induction room using Nat.strong_induction_on generalizing choice with
  | _ room ih =>
    match room with
    | 0 => exact fun s x s' h => (fail_ok.1 h).elim
    | 1 => exact fun s x s' h => (fail_ok.1 h).elim
    | room + 2 =>
      have hplain := logical_reads (withFilters_reads (ih (room + 1) (by omega) true)
        (ih (room + 1) (by omega) false) (primary_reads (ih room (by omega) true)))
      intro s x s' h
      rw [expression] at h
      cases choice with
      | false => exact hplain _ _ _ h
      | true =>
        obtain ⟨fuel, s1, hfuel, h⟩ := bind_ok.1 h
        obtain ⟨-, rfl⟩ := tokensLeft_ok hfuel
        exact choices_reads hplain _ _ _ _ h

/-! ### Expressions that begin with a map -/

/-- Where the parser comes upon the brace of a map, the map ends or has a key. -/
def MeetsMaps (p : Parser α) : Prop :=
  ∀ s x s', p s = .ok (x, s') → MapFollows s.tokens

theorem mapFollows_of_took {t : Token} (h : Took t s s') (ht : t ≠ .symbol .braceOpen) : MapFollows s.tokens := by
  intro r hr
  rw [h.1] at hr
  exact absurd (List.cons.inj hr).1 ht

theorem mapEntries_follow (hexpr : Consumes expr Expr.names) {es : List (Expr × Expr)}
    (h : listUntil .braceClose (mapEntry expr) s = .ok (es, s')) :
    s.tokens.head? = some (.symbol .braceClose) ∨ KeyEnds 0 s.tokens := by
  obtain ⟨fuel, s1, hfuel, h⟩ := bind_ok.1 h
  obtain ⟨-, rfl⟩ := tokensLeft_ok hfuel
  rw [listUntil.go] at h
  obtain ⟨b, s1, hskip, h⟩ := bind_ok.1 h
  rcases skip_ok hskip with ⟨rfl, htook⟩ | ⟨rfl, rfl⟩
  · left
    rw [htook.1]
    rfl
  · right
    obtain ⟨p, s2, hentry, -⟩ := bind_ok.1 h
    obtain ⟨k, s3, hkey, hentry⟩ := bind_ok.1 hentry
    obtain ⟨_, s4, hcolon, -⟩ := bind_ok.1 hentry
    obtain ⟨mid, htokens, -, -, hcloses, -⟩ := hexpr _ _ _ hkey
    rw [htokens, (expect_ok hcolon).1]
    exact KeyEnds.of_closes (hcloses 0) (.inl ⟨rfl, rfl⟩)

theorem primary_meetsMaps (hexpr : Consumes expr Expr.names) : MeetsMaps (primary expr) := by
  intro s e s' h r hr
  obtain ⟨line, s1, hline, h⟩ := bind_ok.1 h
  cases nextLine_ok hline
  obtain ⟨t, s2, ht, h⟩ := bind_ok.1 h
  have htook := next_of_peek (t := .symbol .braceOpen) (by rw [hr]; rfl) ht
  cases t with
  | none =>
    rw [tokens, (next_none ht).1] at hr
    cases hr
  | some t =>
    have hhead := (next_some ht).1
    rw [hr] at hhead
    obtain ⟨rfl, rfl⟩ := List.cons.inj hhead
    obtain ⟨es, s3, hes, -⟩ := bind_ok.1 h
    exact mapEntries_follow hexpr hes

theorem negated_meetsMaps (hprim : MeetsMaps prim) (fuel : Nat) : MeetsMaps (negated prim fuel) := by
  cases fuel with
  | zero => exact hprim
  | succ fuel =>
    intro s x s' h
    rw [negated] at h
    obtain ⟨line, s1, hline, h⟩ := bind_ok.1 h
    cases nextLine_ok hline
    obtain ⟨b, s2, hskip, h⟩ := bind_ok.1 h
    rcases skip_ok hskip with ⟨rfl, htook⟩ | ⟨rfl, rfl⟩
    · exact mapFollows_of_took htook (by decide)
    · exact hprim _ _ _ h

theorem withFilters_meetsMaps (hprim : MeetsMaps prim) : MeetsMaps (withFilters expr plain prim) := by
  intro s x s' h
  obtain ⟨e, s1, he, -⟩ := bind_ok.1 h
  obtain ⟨fuel, s2, hfuel, he⟩ := bind_ok.1 he
  obtain ⟨-, rfl⟩ := tokensLeft_ok hfuel
  obtain ⟨line, s2, hline, he⟩ := bind_ok.1 he
  cases nextLine_ok hline
  obtain ⟨e', s2, he', -⟩ := bind_ok.1 he
  exact negated_meetsMaps hprim _ _ _ _ he'

theorem leftToRight_meetsMaps {op? : Token → Option BinaryOp} {lower : Parser Expr} (hlower : MeetsMaps lower) :
    MeetsMaps (leftToRight op? lower) := by
  intro s x s' h
  obtain ⟨line, s1, hline, h⟩ := bind_ok.1 h
  cases nextLine_ok hline
  obtain ⟨e, s1, he, -⟩ := bind_ok.1 h
  exact hlower _ _ _ he

theorem inverted_meetsMaps {lower : Parser Expr} (hlower : MeetsMaps lower) (fuel : Nat) :
    MeetsMaps (inverted lower fuel) := by
  cases fuel with
  | zero => exact hlower
  | succ fuel =>
    intro s x s' h
    rw [inverted] at h
    obtain ⟨line, s1, hline, h⟩ := bind_ok.1 h
    cases nextLine_ok hline
    obtain ⟨b, s2, hskip, h⟩ := bind_ok.1 h
    rcases skip_ok hskip with ⟨rfl, htook⟩ | ⟨rfl, rfl⟩
    · exact mapFollows_of_took htook (by rintro ⟨⟩)
    · exact hlower _ _ _ h

theorem compared_meetsMaps {lower : Parser Expr} (hlower : MeetsMaps lower) : MeetsMaps (compared lower) := by
  intro s x s' h
  obtain ⟨line, s1, hline, h⟩ := bind_ok.1 h
  cases nextLine_ok hline
  obtain ⟨e, s1, he, -⟩ := bind_ok.1 h
  exact hlower _ _ _ he

theorem logical_meetsMaps {atom : Parser Expr} (hatom : MeetsMaps atom) : MeetsMaps (logical atom) := by
  refine leftToRight_meetsMaps (leftToRight_meetsMaps ?_)
  intro s x s' h
  obtain ⟨fuel, s1, hfuel, h⟩ := bind_ok.1 h
  obtain ⟨-, rfl⟩ := tokensLeft_ok hfuel
  refine inverted_meetsMaps (compared_meetsMaps ?_) _ _ _ _ h
  exact leftToRight_meetsMaps (leftToRight_meetsMaps (leftToRight_meetsMaps (leftToRight_meetsMaps hatom)))

theorem choices_meetsMaps (hplain : MeetsMaps plain) (fuel : Nat) : MeetsMaps (choices plain fuel) := by
  intro s x s' h
  cases fuel with
  | zero =>
    rw [choices] at h
    exact hplain _ _ _ h
  | succ fuel =>
    rw [choices] at h
    obtain ⟨line, s1, hline, h⟩ := bind_ok.1 h
    cases nextLine_ok hline
    obtain ⟨e, s1, he, -⟩ := bind_ok.1 h
    exact hplain _ _ _ he

/-- An expression that begins with a brace begins with a map. -/
theorem expression_meetsMaps (choice : Bool) (room : Nat) : MeetsMaps (expression choice room) := by
  match room with
  | 0 => exact fun s x s' h => (fail_ok.1 h).elim
  | 1 => exact fun s x s' h => (fail_ok.1 h).elim
  | room + 2 =>
    have hplain : MeetsMaps (logical (withFilters (expression true (room + 1)) (expression false (room + 1))
        (primary (expression true room)))) :=
      logical_meetsMaps (withFilters_meetsMaps (primary_meetsMaps (expression_reads true room)))
    intro s x s' h
    rw [expression] at h
    cases choice with
    | false => exact hplain _ _ _ h
    | true =>
      obtain ⟨fuel, s1, hfuel, h⟩ := bind_ok.1 h
      obtain ⟨-, rfl⟩ := tokensLeft_ok hfuel
      exact choices_meetsMaps hplain _ _ _ _ h

end SecureLayout.Template.Parser
