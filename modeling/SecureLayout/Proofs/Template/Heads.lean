import SecureLayout.Proofs.Template.Expressions

/-!
What the heads of statements are read from: targets, bindings, chains of filters, parameters and lists of
imported names.
-/

namespace SecureLayout.Template

mutual

/-- Every name that stands in a target. -/
def Target.names : Target → List String
  | .name _ n => [n]
  | .attr _ e n => n :: e.names
  | .list _ ts => targetsNames ts

def targetsNames : List Target → List String
  | [] => []
  | t :: r => t.names ++ targetsNames r

end

theorem targetsNames_eq (ts : List Target) : targetsNames ts = ts.flatMap Target.names := by
  induction ts with
  | nil => rfl
  | cons t ts ih => rw [targetsNames, ih, List.flatMap_cons]

/-- Names on both sides of bindings. -/
def bindingsNames (bs : List (Target × Expr)) : List String :=
  bs.flatMap fun b => b.1.names ++ b.2.names

/-- The names under which imported values are stored. -/
def namesImported (ns : List (String × Option String)) : List String :=
  ns.flatMap fun n => n.1 :: n.2.toList

namespace Parser

open ParserState

variable {α : Type} {s s' : ParserState} {expr plain : Parser Expr}

theorem assignName_reads : Consumes assignName fun n => [n] := by
  intro s n s' h
  obtain ⟨n', s1, hn, h⟩ := bind_ok.1 h
  split at h
  · exact (fail_ok.1 h).elim
  · obtain ⟨rfl, rfl⟩ := pure_ok.1 h
    exact (identifier_ok hn).name

theorem dotted_reads {line fuel : Nat} {t x : Target} {e : Expr} (he : e.names ⊆ t.names)
    (h : dotted line fuel t e s = .ok (x, s')) : ∃ ns, Reads 0 0 s s' ns ∧ x.names ⊆ t.names ++ ns := by
  induction fuel generalizing s t e with
  | zero =>
    obtain ⟨rfl, rfl⟩ := pure_ok.1 h
    exact ⟨[], .refl 0 _, by simp⟩
  | succ fuel ih =>
    rw [dotted] at h
    obtain ⟨b, s1, hskip, h⟩ := bind_ok.1 h
    rcases skip_ok hskip with ⟨rfl, htook⟩ | ⟨rfl, rfl⟩
    · obtain ⟨n, s2, hn, h⟩ := bind_ok.1 h
      obtain ⟨ns, hns, hx⟩ := ih (by simp [Expr.names, Target.names]) h
      refine ⟨_, (took_symbol htook (by decide) (by decide)).trans ((identifier_ok hn).name.trans hns), ?_⟩
      intro m hm
      have := hx hm
      simp only [Target.names, List.cons_append, List.mem_cons, List.mem_append, List.nil_append] at this ⊢
      rcases this with rfl | hm | hm
      · exact .inr (.inl rfl)
      · exact .inl (he hm)
      · exact .inr (.inr hm)
    · obtain ⟨rfl, rfl⟩ := pure_ok.1 h
      exact ⟨[], .refl 0 _, by simp⟩

theorem assignTarget_reads : Consumes assignTarget Target.names := by
  intro s x s' h
  obtain ⟨line, s1, hline, h⟩ := bind_ok.1 h
  cases nextLine_ok hline
  obtain ⟨n, s1, hn, h⟩ := bind_ok.1 h
  obtain ⟨fuel, s2, hfuel, h⟩ := bind_ok.1 h
  obtain ⟨-, rfl⟩ := tokensLeft_ok hfuel
  obtain ⟨ns, hns, hx⟩ := dotted_reads (by simp [Expr.names, Target.names]) h
  exact ((assignName_reads _ _ _ hn).trans hns).mono (by simpa [Target.names] using hx)

theorem targets_go_reads {inner : Parser Target} (hinner : Consumes inner Target.names) {fuel : Nat} {first : Bool}
    {ts : List Target} {b : Bool} (h : targets.go inner fuel first s = .ok ((ts, b), s')) :
    Reads 0 0 s s' (targetsNames ts) := by
  induction fuel generalizing s first ts b with
  | zero =>
    obtain ⟨heq, rfl⟩ := pure_ok.1 h
    cases heq
    exact .refl 0 _
  | succ fuel ih =>
    rw [targets.go] at h
    have htail : ∀ {s1 s2 : ParserState} {t : Target}, Reads 0 0 s1 s2 t.names →
        (do
          if ← isNext (.symbol .comma) then
            let more ← targets.go inner fuel false
            return (t :: more.1, true)
          else return ([t], false) : Parser (List Target × Bool)) s2 = .ok ((ts, b), s') →
        Reads 0 0 s1 s' (targetsNames ts) := by
      intro s1 s2 t ht h
      obtain ⟨c, s3, hnext, h⟩ := bind_ok.1 h
      obtain ⟨rfl, rfl⟩ := isNext_ok hnext
      split at h
      · obtain ⟨⟨more, c⟩, s3, hmore, h⟩ := bind_ok.1 h
        obtain ⟨heq, rfl⟩ := pure_ok.1 h
        cases heq
        exact ht.trans (ih hmore)
      · obtain ⟨heq, rfl⟩ := pure_ok.1 h
        cases heq
        exact ht.mono (by simp [targetsNames])
    have hone : ∀ {s1 : ParserState}, Reads 0 0 s s1 [] →
        (do
          if endsTargets (← peek) then return ([], !first)
          let t ← if ← skipSymbol .parenOpen then do
              let t ← inner
              expectSymbol .parenClose
              pure t
            else assignTarget
          if ← isNext (.symbol .comma) then
            let more ← targets.go inner fuel false
            return (t :: more.1, true)
          else return ([t], false) : Parser (List Target × Bool)) s1 = .ok ((ts, b), s') →
        Reads 0 0 s s' (targetsNames ts) := by
      intro s1 hs1 h
      obtain ⟨t, s2, hpeek, h⟩ := bind_ok.1 h
      obtain ⟨rfl, rfl⟩ := peek_ok hpeek
      split at h
      · obtain ⟨heq, rfl⟩ := pure_ok.1 h
        cases heq
        exact hs1
      · obtain ⟨c, s3, hskip, h⟩ := bind_ok.1 h
        rcases skip_ok hskip with ⟨rfl, htook⟩ | ⟨rfl, rfl⟩
        · obtain ⟨t, s4, ht, h⟩ := bind_ok.1 h
          obtain ⟨_, s5, hclose, h⟩ := bind_ok.1 h
          have hin := (took_opening htook (by decide)).trans
            ((hinner _ _ _ ht).deeper.trans (took_closing (expect_ok hclose) (by decide)))
          exact htail ((hs1.trans hin).mono (by simp)) h
        · obtain ⟨t, s4, ht, h⟩ := bind_ok.1 h
          exact htail ((hs1.trans (assignTarget_reads _ _ _ ht)).mono (by simp)) h
    cases first with
    | true => exact hone (.refl 0 _) h
    | false =>
      obtain ⟨_, s1, hcomma, h⟩ := bind_ok.1 h
      exact hone (took_symbol (expect_ok hcomma) (by decide) (by decide)) h

theorem targets_reads (room : Nat) : Consumes (targets room) Target.names := by
  induction room with
  | zero => exact fun s x s' h => (fail_ok.1 h).elim
  | succ room ih =>
    intro s x s' h
    rw [targets] at h
    obtain ⟨line, s1, hline, h⟩ := bind_ok.1 h
    cases nextLine_ok hline
    obtain ⟨fuel, s1, hfuel, h⟩ := bind_ok.1 h
    obtain ⟨-, rfl⟩ := tokensLeft_ok hfuel
    obtain ⟨⟨ts, b⟩, s1, hts, h⟩ := bind_ok.1 h
    have hts := targets_go_reads ih hts
    have hlist : ∀ {ts : List Target}, (pure (.list line ts) : Parser Target) s1 = .ok (x, s') →
        s1 = s' ∧ x.names ⊆ targetsNames ts := by
      intro ts h
      obtain ⟨rfl, rfl⟩ := pure_ok.1 h
      exact ⟨rfl, by simp [Target.names]⟩
    have hx : s1 = s' ∧ x.names ⊆ targetsNames ts := by
      match ts, b, h with
      | [], _, h => exact hlist h
      | [_], true, h => exact hlist h
      | _ :: _ :: _, _, h => exact hlist h
      | [t], false, h =>
        obtain ⟨rfl, rfl⟩ := pure_ok.1 h
        exact ⟨rfl, by simp [targetsNames]⟩
    obtain ⟨rfl, hx⟩ := hx
    exact hts.mono hx

/-! ### Heads made of expressions and targets -/

/-- Words were read, among them some names; their brackets need not match. -/
def Takes (s s' : ParserState) (ns : List String) : Prop :=
  ∃ mid, s.tokens = mid ++ s'.tokens ∧ s'.fault = s.fault ∧ (∀ t ∈ mid, t.isWord = true) ∧
    ∀ n ∈ ns, Token.name n ∈ mid

theorem Takes.refl (s : ParserState) : Takes s s [] :=
  ⟨[], rfl, rfl, nofun, nofun⟩

theorem Takes.trans {s1 : ParserState} {ns ms : List String} (h : Takes s s1 ns) (h' : Takes s1 s' ms) :
    Takes s s' (ns ++ ms) := by
  obtain ⟨mid, hs, hf, hw, hn⟩ := h
  obtain ⟨mid', hs', hf', hw', hn'⟩ := h'
  refine ⟨mid ++ mid', by rw [hs, hs', List.append_assoc], hf'.trans hf, ?_, ?_⟩
  · intro t ht
    exact (List.mem_append.1 ht).elim (hw t) (hw' t)
  · intro n hmem
    exact List.mem_append.2 ((List.mem_append.1 hmem).imp (hn n) (hn' n))

theorem Takes.mono {ns ms : List String} (h : Takes s s' ns) (hm : ms ⊆ ns) : Takes s s' ms := by
  obtain ⟨mid, hs, hf, hw, hn⟩ := h
  exact ⟨mid, hs, hf, hw, fun n hmem => hn n (hm hmem)⟩

theorem takes_of_reads {a b : Nat} {ns : List String} (h : Reads a b s s' ns) : Takes s s' ns := by
  obtain ⟨mid, hs, hf, hw, -, hn⟩ := h
  exact ⟨mid, hs, hf, hw, hn⟩

theorem takes_of_took {t : Token} (h : Took t s s') (ht : t.isWord = true) : Takes s s' [] :=
  ⟨[t], h.1, h.2, fun x hx => by rw [List.mem_singleton.1 hx, ht], nofun⟩

/-- The parsers that heads are built from read what they should. -/
structure Parts.ReadHeads (p : Parts) : Prop where
  expr : Consumes p.expr Expr.names
  plain : Consumes p.plain Expr.names
  targets : Consumes p.targets Target.names

variable {p : Parts}

theorem bindings_reads (hp : p.ReadHeads) {fuel : Nat} {first : Bool} {bs : List (Target × Expr)}
    (h : p.bindings fuel first s = .ok (bs, s')) : Reads 0 0 s s' (bindingsNames bs) := by
  induction fuel generalizing s first bs with
  | zero =>
    obtain ⟨rfl, rfl⟩ := pure_ok.1 h
    exact .refl 0 _
  | succ fuel ih =>
    rw [Parts.bindings] at h
    obtain ⟨b, s1, hnext, h⟩ := bind_ok.1 h
    obtain ⟨rfl, rfl⟩ := isNext_ok hnext
    split at h
    · obtain ⟨rfl, rfl⟩ := pure_ok.1 h
      exact .refl 0 _
    · have hvalue : ∀ {s1 s2 : ParserState} {t : Target}, Reads 0 0 s1 s2 t.names →
          (do
            expect (.symbol .assign) "assignment operator"
            let e ← p.expr
            return (t, e) :: (← p.bindings fuel false) : Parser (List (Target × Expr))) s2 = .ok (bs, s') →
          Reads 0 0 s1 s' (bindingsNames bs) := by
        intro s1 s2 t ht h
        obtain ⟨_, s3, hassign, h⟩ := bind_ok.1 h
        obtain ⟨e, s4, he, h⟩ := bind_ok.1 h
        obtain ⟨more, s5, hmore, h⟩ := bind_ok.1 h
        obtain ⟨rfl, rfl⟩ := pure_ok.1 h
        have hassign := took_symbol (expect_ok hassign) (by decide) (by decide)
        exact (ht.trans (hassign.trans ((hp.expr _ _ _ he).trans (ih hmore)))).mono
          (by simp [bindingsNames])
      have hone : ∀ {s1 : ParserState}, Reads 0 0 s s1 [] →
          (do
            let target ← if ← skipSymbol .parenOpen then do
                let t ← p.targets
                expectSymbol .parenClose
                pure t
              else do
                let line ← nextLine
                pure (.name line (← assignName))
            expect (.symbol .assign) "assignment operator"
            let e ← p.expr
            return (target, e) :: (← p.bindings fuel false) : Parser (List (Target × Expr))) s1 = .ok (bs, s') →
          Reads 0 0 s s' (bindingsNames bs) := by
        intro s1 hs1 h
        obtain ⟨c, s2, hskip, h⟩ := bind_ok.1 h
        rcases skip_ok hskip with ⟨rfl, htook⟩ | ⟨rfl, rfl⟩
        · obtain ⟨t, s3, ht, h⟩ := bind_ok.1 h
          obtain ⟨_, s4, hclose, h⟩ := bind_ok.1 h
          have hin := (took_opening htook (by decide)).trans
            ((hp.targets _ _ _ ht).deeper.trans (took_closing (expect_ok hclose) (by decide)))
          exact hvalue ((hs1.trans hin).mono (by simp)) h
        · obtain ⟨line, s3, hline, h⟩ := bind_ok.1 h
          cases nextLine_ok hline
          obtain ⟨n, s3, hn, h⟩ := bind_ok.1 h
          exact hvalue ((hs1.trans (assignName_reads _ _ _ hn)).mono (by simp [Target.names])) h
      cases first with
      | true => exact hone (.refl 0 _) h
      | false =>
        obtain ⟨_, s1, hcomma, h⟩ := bind_ok.1 h
        exact hone (took_symbol (expect_ok hcomma) (by decide) (by decide)) h

theorem filterChain_go_reads (hp : p.ReadHeads) {fuel : Nat} {e x : Option Expr}
    (h : Parts.filterChain.go p fuel e s = .ok (x, s')) :
    ∃ ns, Reads 0 0 s s' ns ∧ optionNames x ⊆ optionNames e ++ ns := by
  induction fuel generalizing s e with
  | zero =>
    obtain ⟨rfl, rfl⟩ := pure_ok.1 h
    exact ⟨[], .refl 0 _, by simp⟩
  | succ fuel ih =>
    rw [Parts.filterChain.go] at h
    obtain ⟨b, s1, hnext, h⟩ := bind_ok.1 h
    obtain ⟨rfl, rfl⟩ := isNext_ok hnext
    split at h
    · obtain ⟨rfl, rfl⟩ := pure_ok.1 h
      exact ⟨[], .refl 0 _, by simp⟩
    · have hone : ∀ {s1 : ParserState}, Reads 0 0 s s1 [] →
          (do
            let line ← nextLine
            let name ← identifier
            let args ← argumentsIfAny p.expr p.plain
            Parts.filterChain.go p fuel (some (.filter line name e args)) : Parser (Option Expr)) s1 = .ok (x, s') →
          ∃ ns, Reads 0 0 s s' ns ∧ optionNames x ⊆ optionNames e ++ ns := by
        intro s1 hs1 h
        obtain ⟨line, s2, hline, h⟩ := bind_ok.1 h
        cases nextLine_ok hline
        obtain ⟨n, s2, hn, h⟩ := bind_ok.1 h
        obtain ⟨args, s3, hargs, h⟩ := bind_ok.1 h
        have hargs := argumentsIfAny_reads hp.expr hp.plain _ _ _ hargs
        obtain ⟨ns, hns, hx⟩ := ih h
        refine ⟨_, hs1.trans ((identifier_ok hn).name.trans (hargs.trans hns)), List.Subset.trans hx ?_⟩
        intro m hm
        simp only [optionNames, Expr.names, List.mem_append, List.mem_cons, List.nil_append,
          List.not_mem_nil, or_false] at hm ⊢
        tauto
      cases hsome : e.isSome with
      | true =>
        rw [hsome] at h
        obtain ⟨_, s1, hpipe, h⟩ := bind_ok.1 h
        exact hone (took_symbol (expect_ok hpipe) (by decide) (by decide)) h
      | false =>
        rw [hsome] at h
        exact hone (.refl 0 _) h

theorem filterChain_reads (hp : p.ReadHeads) : Consumes p.filterChain Expr.names := by
  intro s x s' h
  obtain ⟨fuel, s1, hfuel, h⟩ := bind_ok.1 h
  obtain ⟨-, rfl⟩ := tokensLeft_ok hfuel
  obtain ⟨e, s1, he, h⟩ := bind_ok.1 h
  obtain ⟨ns, hns, hx⟩ := filterChain_go_reads hp he
  cases e with
  | none => exact (fail_ok.1 h).elim
  | some e =>
    obtain ⟨rfl, rfl⟩ := pure_ok.1 h
    exact hns.mono (by simpa [optionNames] using hx)

theorem contextWords_reads : Consumes Parts.contextWords fun _ => [] := by
  have hone : ∀ {s s' : ParserState} {n : String}, some (.name n) = s.tokens.head? →
      (do let _ ← next; expect (.name "context") "missing keyword" : Parser Unit) s = .ok ((), s') →
      Reads 0 0 s s' [] := by
    intro s s' n hn h
    obtain ⟨_, s1, htook, h⟩ := bind_ok.1 h
    exact ((next_of_peek hn.symm htook).name.trans (expect_ok h).name).mono (by simp)
  intro s x s' h
  obtain ⟨t, s1, hpeek, h⟩ := bind_ok.1 h
  obtain ⟨ht, rfl⟩ := peek_ok hpeek
  split at h
  · exact hone ht h
  · exact hone ht h
  · obtain ⟨-, rfl⟩ := pure_ok.1 h
    exact .refl 0 _

theorem importedNames_reads {fuel : Nat} {first : Bool} {ns : List (String × Option String)}
    (h : Parts.importedNames fuel first s = .ok (ns, s')) : Reads 0 0 s s' (namesImported ns) := by
  induction fuel generalizing s first ns with
  | zero =>
    obtain ⟨rfl, rfl⟩ := pure_ok.1 h
    exact .refl 0 _
  | succ fuel ih =>
    rw [Parts.importedNames] at h
    obtain ⟨_, s1, hwords, h⟩ := bind_ok.1 h
    have hwords := contextWords_reads _ _ _ hwords
    obtain ⟨b, s2, hnext, h⟩ := bind_ok.1 h
    obtain ⟨rfl, rfl⟩ := isNext_ok hnext
    split at h
    · obtain ⟨rfl, rfl⟩ := pure_ok.1 h
      exact hwords
    · have hend : ∀ {s2 s3 : ParserState} {n : String} {renamed : Option String},
          Reads 0 0 s2 s3 (n :: renamed.toList) →
          (do return (n, renamed) :: (← Parts.importedNames fuel false) :
            Parser (List (String × Option String))) s3 = .ok (ns, s') →
          Reads 0 0 s2 s' (namesImported ns) := by
        intro s2 s3 n renamed hn h
        obtain ⟨more, s4, hmore, h⟩ := bind_ok.1 h
        obtain ⟨rfl, rfl⟩ := pure_ok.1 h
        exact (hn.trans (ih hmore)).mono (by simp [namesImported])
      have hone : ∀ {s2 : ParserState}, Reads 0 0 s s2 [] →
          (do
            if ← isNext .blockEnd then return []
            let name ← assignName
            let renamed ← if ← skipName "as" then pure (some (← assignName)) else pure none
            return (name, renamed) :: (← Parts.importedNames fuel false) :
            Parser (List (String × Option String))) s2 = .ok (ns, s') →
          Reads 0 0 s s' (namesImported ns) := by
        intro s2 hs2 h
        obtain ⟨b, s3, hnext, h⟩ := bind_ok.1 h
        obtain ⟨rfl, rfl⟩ := isNext_ok hnext
        split at h
        · obtain ⟨rfl, rfl⟩ := pure_ok.1 h
          exact hs2
        · obtain ⟨n, s3, hn, h⟩ := bind_ok.1 h
          have hn := assignName_reads _ _ _ hn
          obtain ⟨c, s4, hskip, h⟩ := bind_ok.1 h
          rcases skip_ok hskip with ⟨rfl, htook⟩ | ⟨rfl, rfl⟩
          · obtain ⟨r, s5, hr, h⟩ := bind_ok.1 h
            have hr := assignName_reads _ _ _ hr
            exact hend ((hs2.trans (hn.trans (htook.name.trans hr))).mono (by simp)) h
          · exact hend ((hs2.trans hn).mono (by simp)) h
      cases first with
      | true => exact hone hwords h
      | false =>
        obtain ⟨_, s2, hcomma, h⟩ := bind_ok.1 h
        obtain ⟨_, s3, hwords', h⟩ := bind_ok.1 h
        have hcomma := took_symbol (expect_ok hcomma) (by decide) (by decide)
        exact hone (hwords.trans (hcomma.trans (contextWords_reads _ _ _ hwords'))) h

theorem parameters_takes (hp : p.ReadHeads) {fuel : Nat} {first defaulted : Bool} {names : List String}
    {defaults : List Expr} (h : p.parameters fuel first defaulted s = .ok ((names, defaults), s')) :
    Takes s s' (names ++ exprsNames defaults) := by
  induction fuel generalizing s first defaulted names defaults with
  | zero =>
    obtain ⟨heq, rfl⟩ := pure_ok.1 h
    cases heq
    exact .refl _
  | succ fuel ih =>
    rw [Parts.parameters] at h
    have hend : ∀ {s1 s2 : ParserState} {n : String} (es : List Expr) {d : Bool},
        Takes s1 s2 (n :: exprsNames es) →
        (do
          let more ← p.parameters fuel false d
          return (n :: more.1, es ++ more.2) : Parser (List String × List Expr)) s2 = .ok ((names, defaults), s') →
        Takes s1 s' (names ++ exprsNames defaults) := by
      intro s1 s2 n es d hn h
      obtain ⟨⟨ns, ds⟩, s3, hmore, h⟩ := bind_ok.1 h
      obtain ⟨heq, rfl⟩ := pure_ok.1 h
      cases heq
      refine (hn.trans (ih hmore)).mono ?_
      intro m hm
      simp only [exprsNames_eq, List.flatMap_append, List.mem_append, List.mem_cons, List.cons_append] at hm ⊢
      tauto
    have hone : ∀ {s1 : ParserState}, Takes s s1 [] →
        (do
          let name ← assignName
          if ← skipSymbol .assign then
            let e ← p.expr
            let more ← p.parameters fuel false true
            return (name :: more.1, e :: more.2)
          else
            if defaulted then expectSymbol .assign
            let more ← p.parameters fuel false defaulted
            return (name :: more.1, more.2) : Parser (List String × List Expr)) s1 = .ok ((names, defaults), s') →
        Takes s s' (names ++ exprsNames defaults) := by
      intro s1 hs1 h
      obtain ⟨n, s2, hn, h⟩ := bind_ok.1 h
      have hn := hs1.trans (takes_of_reads (assignName_reads _ _ _ hn))
      obtain ⟨b, s3, hskip, h⟩ := bind_ok.1 h
      rcases skip_ok hskip with ⟨rfl, htook⟩ | ⟨rfl, rfl⟩
      · obtain ⟨e, s4, he, h⟩ := bind_ok.1 h
        exact hend [e] ((hn.trans ((takes_of_took htook rfl).trans (takes_of_reads (hp.expr _ _ _ he)))).mono
          (by simp [exprsNames])) h
      · cases defaulted with
        | true =>
          obtain ⟨_, s4, hassign, h⟩ := bind_ok.1 h
          exact hend [] ((hn.trans (takes_of_took (expect_ok hassign) rfl)).mono (by simp [exprsNames])) h
        | false => exact hend [] (hn.mono (by simp [exprsNames])) h
    obtain ⟨b, s1, hskip, h⟩ := bind_ok.1 h
    rcases skip_ok hskip with ⟨rfl, htook⟩ | ⟨rfl, rfl⟩
    · obtain ⟨heq, rfl⟩ := pure_ok.1 h
      cases heq
      exact takes_of_took htook rfl
    · cases first with
      | true => exact hone (.refl _) h
      | false =>
        obtain ⟨_, s2, hcomma, h⟩ := bind_ok.1 h
        obtain ⟨c, s3, hskip', h⟩ := bind_ok.1 h
        rcases skip_ok hskip' with ⟨rfl, htook⟩ | ⟨rfl, rfl⟩
        · obtain ⟨heq, rfl⟩ := pure_ok.1 h
          cases heq
          exact (takes_of_took (expect_ok hcomma) rfl).trans (takes_of_took htook rfl)
        · exact hone (takes_of_took (expect_ok hcomma) rfl) h

theorem call_reads (hp : p.ReadHeads) : Consumes p.call Expr.names := by
  intro s x s' h
  obtain ⟨e, s1, he, h⟩ := bind_ok.1 h
  split at h
  · obtain ⟨rfl, rfl⟩ := pure_ok.1 h
    exact hp.expr _ _ _ he
  · exact (fail_ok.1 h).elim

end Parser

end SecureLayout.Template
