import SecureLayout.Proofs.Template.Woven

/-!
Parsers of statements, one after the other. Main statements: what a template is parsed from has the shape of
a template, and if every loop in it is followed by a tick, then every loop that is parsed counts its bodies.
-/

namespace SecureLayout.Template.Parser

open ParserState

variable {s s1 s' : ParserState} {p q r : Place} {P Q : Prop}

/-! ### From place to place -/

/-- From one place of a stream to another; `P` holds of what was made of it. -/
def Goes (p : Place) (ts : List Token) (q : Place) (ts' : List Token) (P : Prop) : Prop :=
  Shaped q.inTag ts' → Shaped p.inTag ts ∧ (Woven p ts → Woven q ts' ∧ P)

/-- The parser goes over a stretch of the stream. -/
structure Moves (p q : Place) (s s' : ParserState) (P : Prop) : Prop where
  fault : s'.fault = s.fault
  length : s'.rest.length ≤ s.rest.length
  goes : Goes p s.tokens q s'.tokens P

theorem Goes.trans {ts us vs : List Token} (h : Goes p ts q us P) (h' : Goes q us r vs Q) :
    Goes p ts r vs (P ∧ Q) := by
  intro hs
  obtain ⟨hs, hwoven'⟩ := h' hs
  obtain ⟨hs, hwoven⟩ := h hs
  refine ⟨hs, fun hw => ?_⟩
  obtain ⟨hw, hP⟩ := hwoven hw
  obtain ⟨hw, hQ⟩ := hwoven' hw
  exact ⟨hw, hP, hQ⟩

theorem Goes.mono {ts us : List Token} (h : Goes p ts q us P) (hPQ : P → Q) : Goes p ts q us Q :=
  fun hs => ⟨(h hs).1, fun hw => ⟨((h hs).2 hw).1, hPQ ((h hs).2 hw).2⟩⟩

namespace Moves

theorem refl (p : Place) (s : ParserState) : Moves p p s s True :=
  ⟨rfl, Nat.le_refl _, fun hs => ⟨hs, fun hw => ⟨hw, trivial⟩⟩⟩

theorem trans (h : Moves p q s s1 P) (h' : Moves q r s1 s' Q) : Moves p r s s' (P ∧ Q) :=
  ⟨h'.fault.trans h.fault, h'.length.trans h.length, h.goes.trans h'.goes⟩

theorem mono (h : Moves p q s s' P) (hPQ : P → Q) : Moves p q s s' Q :=
  ⟨h.fault, h.length, h.goes.mono hPQ⟩

/-- Nothing but the notes of the parser changes. -/
theorem same (p : Place) (hr : s'.rest = s.rest) (hf : s'.fault = s.fault) : Moves p p s s' True := by
  refine ⟨hf, by rw [hr], ?_⟩
  rw [tokens, tokens, hr]
  exact fun hs => ⟨hs, fun hw => ⟨hw, trivial⟩⟩

/-- No stream that has a shape ends inside a tag. -/
theorem of_end (hr : s'.rest = []) (hf : s'.fault = s.fault) (hq : q.inTag = true) : Moves p q s s' P := by
  refine ⟨hf, by simp [hr], ?_⟩
  rw [Goes, tokens, hr, hq]
  intro hs
  cases hs

theorem of_takes {ns : List String} (hp : p.inTag = true) (h : Takes s s' ns) :
    Moves p p s s' (tickFunction ∉ ns) := by
  obtain ⟨mid, hs, hf, hw, hn⟩ := h
  have hlen := congrArg List.length hs
  simp only [tokens, List.length_map, List.length_append] at hlen
  refine ⟨hf, by omega, ?_⟩
  rw [hs]
  intro hshaped
  rw [hp] at hshaped ⊢
  constructor
  · exact Shaped.append_words hw hshaped
  · intro hwoven
    obtain ⟨hopen, hwoven⟩ := hwoven.of_words hp hw
    exact ⟨hwoven, fun hmem => ((hopen _ (hn _ hmem)).name _ rfl).ne_tick rfl⟩

theorem of_reads {a b : Nat} {ns : List String} (hp : p.inTag = true) (h : Reads a b s s' ns) :
    Moves p p s s' (tickFunction ∉ ns) :=
  of_takes hp (takes_of_reads h)

theorem of_word {t : Token} (hp : p.inTag = true) (h : Took t s s') (ht : t.isWord = true) :
    Moves p p s s' True :=
  (of_takes hp (takes_of_took h ht)).mono fun _ => trivial

theorem of_took (h : Took t s s') (hgoes : Goes p (t :: s'.tokens) q s'.tokens P) : Moves p q s s' P := by
  have hlen := congrArg List.length h.1
  simp only [tokens, List.length_map, List.length_cons] at hlen
  exact ⟨h.2, by omega, by rw [h.1]; exact hgoes⟩

theorem of_blockEnd (h : Took .blockEnd s s') : Moves .words .text s s' True :=
  of_took h fun hs => ⟨.blockEnd hs, fun hw => ⟨hw.of_blockEnd, trivial⟩⟩

theorem of_loopEnd (h : Took .blockEnd s s') : Moves .loop .body s s' True :=
  of_took h fun hs => ⟨.blockEnd hs, fun hw => ⟨hw.of_loopEnd, trivial⟩⟩

end Moves

/-! ### The statement that counts a loop body -/

section

variable (room line l1 l2 l3 l4 l5 l6 l7 : Nat) (fault : Option Error) (blocks : List String) (inMacro : Bool)
  (rest : List Spanned)

theorem expression_tick : expression true (room + 2)
      ⟨⟨.name tickFunction, l4⟩ :: ⟨.symbol .parenOpen, l5⟩ :: ⟨.symbol .parenClose, l6⟩ :: ⟨.blockEnd, l7⟩ :: rest,
        fault, line, blocks, inMacro⟩ =
    .ok (.call l4 (.var l4 tickFunction) [], ⟨⟨.blockEnd, l7⟩ :: rest, fault, l6, blocks, inMacro⟩) :=
  rfl

theorem statement_tick : statement (room + 3)
      ⟨⟨.name "set", l1⟩ :: ⟨.name "__lg_tick", l2⟩ :: ⟨.symbol .assign, l3⟩ :: ⟨.name tickFunction, l4⟩ ::
        ⟨.symbol .parenOpen, l5⟩ :: ⟨.symbol .parenClose, l6⟩ :: ⟨.blockEnd, l7⟩ :: rest,
        fault, line, blocks, inMacro⟩ =
    .ok (.set l1 (.name l2 "__lg_tick") (.call l4 (.var l4 tickFunction) []),
      ⟨⟨.blockEnd, l7⟩ :: rest, fault, l6, blocks, inMacro⟩) := by
  have hset : (do return .set l1 (.name l2 "__lg_tick") (← expression true (room + 2)) : Parser Stmt)
        ⟨⟨.name tickFunction, l4⟩ :: ⟨.symbol .parenOpen, l5⟩ :: ⟨.symbol .parenClose, l6⟩ :: ⟨.blockEnd, l7⟩ :: rest,
          fault, l3, blocks, inMacro⟩ =
      .ok (.set l1 (.name l2 "__lg_tick") (.call l4 (.var l4 tickFunction) []),
        ⟨⟨.blockEnd, l7⟩ :: rest, fault, l6, blocks, inMacro⟩) :=
    bind_ok.2 ⟨_, _, expression_tick .., rfl⟩
  exact hset

end

theorem statement_isTick {room : Nat} {ts : List Token} {x : Stmt} (hs : s.tokens = tickTokens.tail ++ ts)
    (h : statement room s = .ok (x, s')) : s'.tokens = .blockEnd :: ts ∧ x.IsTick := by
  obtain ⟨rest, fault, line, blocks, inMacro⟩ := s
  obtain ⟨⟨t1, l1⟩, rest, rfl, rfl, hs1⟩ := List.map_eq_cons_iff.1 hs
  obtain ⟨⟨t2, l2⟩, rest, rfl, rfl, hs2⟩ := List.map_eq_cons_iff.1 hs1
  obtain ⟨⟨t3, l3⟩, rest, rfl, rfl, hs3⟩ := List.map_eq_cons_iff.1 hs2
  obtain ⟨⟨t4, l4⟩, rest, rfl, rfl, hs4⟩ := List.map_eq_cons_iff.1 hs3
  obtain ⟨⟨t5, l5⟩, rest, rfl, rfl, hs5⟩ := List.map_eq_cons_iff.1 hs4
  obtain ⟨⟨t6, l6⟩, rest, rfl, rfl, hs6⟩ := List.map_eq_cons_iff.1 hs5
  obtain ⟨⟨t7, l7⟩, rest, rfl, rfl, rfl⟩ := List.map_eq_cons_iff.1 hs6
  match room with
  | 0 => cases h
  | 1 => cases h
  | 2 => cases h
  | room + 3 =>
    rw [statement_tick] at h
    cases h
    exact ⟨rfl, rfl, rfl⟩

/-! ### Bodies -/

/-- What a parser of statements makes of a tag that opens a block. -/
structure ReadsBlocks (stmt : Parser Stmt) : Prop where
  fault : ∀ {s s' x}, stmt s = .ok (x, s') → s'.fault = s.fault
  length : ∀ {s s' x}, stmt s = .ok (x, s') → s'.rest.length ≤ s.rest.length
  goes : ∀ {s s' x}, stmt s = .ok (x, s') →
    Goes .text (.blockStart :: s.tokens) .words s'.tokens x.Metered
  tick : ∀ {s s' x ts}, s.tokens = tickTokens.tail ++ ts → stmt s = .ok (x, s') →
    s'.tokens = .blockEnd :: ts ∧ x.IsTick

/-- What statements are built from does what it should. -/
structure Parts.Sound (p : Parts) : Prop extends p.ReadHeads where
  maps : MeetsMaps p.expr
  stmt : ReadsBlocks p.stmt

/-- Words that end a body. -/
def EndWords (ends : List String) : Prop :=
  ∀ n ∈ ends, n ∈ statementWords ∧ n ≠ "for"

/-- Behind a body stands the end of the source or a word that ends the body. -/
def AtEnd (s : ParserState) : Prop :=
  s.rest = [] ∧ s.fault = none ∨ ∃ n, s.tokens.head? = some (.name n)

theorem emit_moves {expr : Parser Expr} (hexpr : Consumes expr Expr.names) (hmaps : MeetsMaps expr)
    {e : Expr} {s2 s3 : ParserState} (hstart : Took .exprStart s s1) (he : expr s1 = .ok (e, s2))
    (hend : Took .exprEnd s2 s3) : Moves .text .text s s3 (Stmt.emit e).Metered := by
  have hmap := hmaps _ _ _ he
  obtain ⟨mid, hs, hf, hw, -, hn⟩ := hexpr _ _ _ he
  have htokens : s.tokens = .exprStart :: (mid ++ .exprEnd :: s3.tokens) := by rw [hstart.1, hs, hend.1]
  have hlen := congrArg List.length htokens
  simp only [tokens, List.length_map, List.length_append, List.length_cons] at hlen
  refine ⟨hend.2.trans (hf.trans hstart.2), by omega, ?_⟩
  rw [htokens]
  intro hshaped
  constructor
  · refine .expr ?_ ?_
    · rw [← hend.1, ← hs]
      exact hmap
    · exact Shaped.append_words hw (.exprEnd hshaped)
  · intro hwoven
    obtain ⟨hfree, hwoven⟩ := hwoven.of_output hw
    exact ⟨hwoven, ⟨fun hmem => hfree (hn _ hmem), trivial, (by intros; contradiction)⟩⟩

/-- A tag that ends a body is left behind its first word. -/
theorem ending_goes {n : String} {ts : List Token} {ends : List String} (hends : EndWords ends) (hn : n ∈ ends) :
    Goes .text (.blockStart :: .name n :: ts) .words (.name n :: ts) True := by
  intro hshaped
  obtain ⟨hword, hfor⟩ := hends n hn
  cases hshaped with
  | word _ hshaped =>
    refine ⟨.block hword hshaped, fun hwoven => ?_⟩
    cases hwoven with
    | word hp => cases hp
    | block _ hwoven => exact ⟨hwoven, trivial⟩
    | loop => exact absurd rfl hfor

/-- A body goes to its end, or to the word that ends it. -/
theorem bodyUntil_moves {stmt : Parser Stmt} {expr : Parser Expr} (hexpr : Consumes expr Expr.names)
    (hmaps : MeetsMaps expr) (hstmt : ReadsBlocks stmt) {ends : List String} (hends : EndWords ends) {fuel : Nat}
    (hfuel : s.rest.length < fuel) {b : List Stmt} (h : bodyUntil stmt expr ends fuel s = .ok (b, s')) :
    Moves .text .text s s' (∀ x ∈ b, x.Metered) ∧ s'.rest = [] ∧ s'.fault = none ∨
    Moves .text .words s s' (∀ x ∈ b, x.Metered) ∧ ∃ n ∈ ends, s'.tokens.head? = some (.name n) := by
  induction fuel generalizing s b with
  | zero => exact absurd hfuel (Nat.not_lt_zero _)
  | succ fuel ih =>
    -- One statement, and the statements behind it.
    have hcons : ∀ {s1 : ParserState} {x : Stmt}, Moves .text .text s s1 x.Metered →
        s1.rest.length < s.rest.length →
        (do return x :: (← bodyUntil stmt expr ends fuel) : Parser (List Stmt)) s1 = .ok (b, s') →
        Moves .text .text s s' (∀ x ∈ b, x.Metered) ∧ s'.rest = [] ∧ s'.fault = none ∨
        Moves .text .words s s' (∀ x ∈ b, x.Metered) ∧ ∃ n ∈ ends, s'.tokens.head? = some (.name n) := by
      intro s1 x hx hlen h
      obtain ⟨b', s2, hb', h⟩ := bind_ok.1 h
      obtain ⟨rfl, rfl⟩ := pure_ok.1 h
      have hall : x.Metered ∧ (∀ y ∈ b', y.Metered) → ∀ y ∈ x :: b', y.Metered := by
        rintro ⟨hx, hb'⟩ y hy
        rcases List.mem_cons.1 hy with rfl | hy
        · exact hx
        · exact hb' y hy
      rcases ih (by omega) hb' with ⟨hmoves, hend⟩ | ⟨hmoves, hend⟩
      · exact .inl ⟨(hx.trans hmoves).mono hall, hend⟩
      · exact .inr ⟨(hx.trans hmoves).mono hall, hend⟩
    have hless : ∀ {t : Token} {s1 : ParserState}, Took t s s1 → s1.rest.length < s.rest.length := by
      intro t s1 htook
      have hlen := congrArg List.length htook.1
      simp only [tokens, List.length_map, List.length_cons] at hlen
      omega
    rw [bodyUntil] at h
    obtain ⟨t, s1, ht, h⟩ := bind_ok.1 h
    cases t with
    | none =>
      obtain ⟨rfl, rfl⟩ := pure_ok.1 h
      obtain ⟨hrest, hfault, rfl⟩ := next_none ht
      exact .inl ⟨(Moves.refl _ _).mono (by intros; contradiction), hrest, hfault⟩
    | some t =>
      have htook := next_some ht
      cases t with
      | data text =>
        refine hcons (Moves.of_took htook ?_) (hless htook) h
        intro hshaped
        refine ⟨.data hshaped, fun hwoven => ?_⟩
        cases hwoven with
        | data hwoven => exact ⟨hwoven, ⟨(by rintro ⟨⟩), trivial, (by rintro _ ⟨⟩)⟩⟩
        | word hp => cases hp
      | exprStart =>
        obtain ⟨e, s2, he, h⟩ := bind_ok.1 h
        obtain ⟨_, s3, hend, h⟩ := bind_ok.1 h
        have hmoves := emit_moves hexpr hmaps htook he (expect_ok hend)
        refine hcons hmoves ?_ h
        obtain ⟨mid, hs, -⟩ := hexpr _ _ _ he
        have hlen := congrArg List.length hs
        have hlen' := congrArg List.length (expect_ok hend).1
        have hlen'' := hless htook
        simp only [tokens, List.length_map, List.length_append, List.length_cons] at hlen hlen'
        omega
      | blockStart =>
        obtain ⟨t, s2, hpeek, h⟩ := bind_ok.1 h
        obtain ⟨ht', rfl⟩ := peek_ok hpeek
        have hstmt' : (do
              let x ← stmt
              endOfBlock
              return x :: (← bodyUntil stmt expr ends fuel) : Parser (List Stmt)) s1 = .ok (b, s') →
            Moves .text .text s s' (∀ x ∈ b, x.Metered) ∧ s'.rest = [] ∧ s'.fault = none ∨
            Moves .text .words s s' (∀ x ∈ b, x.Metered) ∧ ∃ n ∈ ends, s'.tokens.head? = some (.name n) := by
          intro h
          obtain ⟨x, s2, hx, h⟩ := bind_ok.1 h
          obtain ⟨_, s3, hend, h⟩ := bind_ok.1 h
          have hend := Moves.of_blockEnd (expect_ok hend)
          have hlen := (hend.length.trans (hstmt.length hx)).trans_lt (hless htook)
          refine hcons (((Moves.mk ?_ (by omega) ?_ : Moves .text .text s s3 (x.Metered ∧ True))).mono And.left)
            hlen h
          · exact hend.fault.trans ((hstmt.fault hx).trans htook.2)
          · rw [htook.1]
            exact (hstmt.goes hx).trans hend.goes
        cases t with
        | none => exact (fail_ok.1 h).elim
        | some t =>
          cases t with
          | name n =>
            dsimp only at h
            split at h
            · next hn =>
              obtain ⟨rfl, rfl⟩ := pure_ok.1 h
              have hmem : n ∈ ends := by simpa using hn
              refine .inr ⟨Moves.of_took htook ?_, n, hmem, ht'.symm⟩
              cases hts : s1.tokens with
              | nil =>
                rw [hts] at ht'
                cases ht'
              | cons a ts =>
                rw [hts] at ht'
                cases ht'
                exact (ending_goes hends hmem).mono (by intros; contradiction)
            · exact hstmt' h
          | _ => exact hstmt' h
      | _ => exact (fail_ok.1 h).elim

theorem tokens_length (s : ParserState) : s.tokens.length = s.rest.length :=
  List.length_map _

/-- At the beginning of a loop body the tick is read first. -/
theorem bodyUntil_tick {stmt : Parser Stmt} {expr : Parser Expr} (hstmt : ReadsBlocks stmt) {ends : List String}
    (hset : "set" ∉ ends) {fuel : Nat} {ts : List Token} {b : List Stmt} (hs : s.tokens = tickTokens ++ ts)
    (h : bodyUntil stmt expr ends (fuel + 1) s = .ok (b, s')) :
    ∃ t b' s1, b = t :: b' ∧ t.IsTick ∧ s1.tokens = ts ∧ bodyUntil stmt expr ends fuel s1 = .ok (b', s') := by
  rw [bodyUntil] at h
  obtain ⟨t, s1, ht, h⟩ := bind_ok.1 h
  have htook := next_of_peek (t := .blockStart) (by rw [hs]; rfl) ht
  have hs1 : s1.tokens = tickTokens.tail ++ ts := by
    have := htook.1
    rw [hs] at this
    exact (List.cons.inj this).2.symm
  cases t with
  | none =>
    have hrest := (next_none ht).1
    rw [tokens, hrest] at hs
    cases hs
  | some t =>
    have hhead := (next_some ht).1
    rw [hs] at hhead
    obtain ⟨rfl, -⟩ := List.cons.inj hhead
    obtain ⟨t, s2, hpeek, h⟩ := bind_ok.1 h
    obtain ⟨ht', rfl⟩ := peek_ok hpeek
    rw [hs1] at ht'
    cases ht'
    have hgo : ends.contains "set" = false := by simpa using hset
    change (if ends.contains "set" = true then pure [] else do
        let x ← stmt
        endOfBlock
        return x :: (← bodyUntil stmt expr ends fuel) : Parser (List Stmt)) s1 = .ok (b, s') at h
    rw [hgo, if_neg Bool.false_ne_true] at h
    obtain ⟨x, s2, hx, h⟩ := bind_ok.1 h
    obtain ⟨_, s3, hend, h⟩ := bind_ok.1 h
    obtain ⟨b', s4, hb', h⟩ := bind_ok.1 h
    obtain ⟨rfl, rfl⟩ := pure_ok.1 h
    obtain ⟨hs2, htick⟩ := hstmt.tick hs1 hx
    have hs3 := (expect_ok hend).1
    rw [hs2] at hs3
    exact ⟨x, b', s3, rfl, htick, (List.cons.inj hs3).2.symm, hb'⟩

/-! ### Statements with bodies -/

variable {parts : Parts}

theorem body_moves (hp : parts.Sound) {ends : List String} (hends : EndWords ends) {b : List Stmt}
    (h : parts.body ends s = .ok (b, s')) : Moves .text .words s s' (∀ x ∈ b, x.Metered) ∧ AtEnd s' := by
  obtain ⟨fuel, s1, hfuel, h⟩ := bind_ok.1 h
  obtain ⟨rfl, rfl⟩ := tokensLeft_ok hfuel
  rcases bodyUntil_moves hp.expr hp.maps hp.stmt hends (Nat.lt_succ_self _) h with
    ⟨hmoves, hrest, hfault⟩ | ⟨hmoves, n, -, hn⟩
  · exact ⟨Moves.of_end hrest hmoves.fault rfl, .inl ⟨hrest, hfault⟩⟩
  · exact ⟨hmoves, .inr ⟨n, hn⟩⟩

/-- The body of a loop begins with its tick. -/
theorem loopBody_moves (hp : parts.Sound) {ends : List String} (hends : EndWords ends) (hset : "set" ∉ ends)
    {b : List Stmt} (h : parts.body ends s = .ok (b, s')) :
    Moves .body .words s s' ((∃ t ∈ b.head?, t.IsTick) ∧ ∀ x ∈ b.tail, x.Metered) ∧ AtEnd s' := by
  obtain ⟨hmoves, hend⟩ := body_moves hp hends h
  refine ⟨⟨hmoves.fault, hmoves.length, fun hshaped => ?_⟩, hend⟩
  refine ⟨(hmoves.goes hshaped).1, fun hwoven => ?_⟩
  obtain ⟨fuel, s1, hfuel, h⟩ := bind_ok.1 h
  obtain ⟨rfl, rfl⟩ := tokensLeft_ok hfuel
  generalize hts : s.tokens = ts at hwoven
  cases hwoven with
  | word hplace => cases hplace
  | tick hwoven =>
    obtain ⟨t, b', s1, rfl, htick, rfl, hb'⟩ := bodyUntil_tick hp.stmt hset hts h
    have hlen : s1.rest.length < s.rest.length := by
      have := congrArg List.length hts
      rw [List.length_append, tokens_length, tokens_length] at this
      simp [tickTokens] at this
      omega
    rcases bodyUntil_moves hp.expr hp.maps hp.stmt hends hlen hb' with
      ⟨-, hrest, -⟩ | ⟨hmoves', -⟩
    · rw [tokens, hrest] at hshaped
      cases hshaped
    · obtain ⟨hwoven, hall⟩ := (hmoves'.goes hshaped).2 hwoven
      exact ⟨hwoven, ⟨t, rfl, htick⟩, hall⟩

/-- The word that ended a body is read. -/
theorem next_moves (hend : AtEnd s) {t : Option Token} (h : next s = .ok (t, s')) :
    Moves .words .words s s' True := by
  rcases hend with ⟨hrest, -⟩ | ⟨n, hn⟩
  · cases t with
    | none =>
      rw [(next_none h).2.2]
      exact .refl _ _
    | some t =>
      have := (next_some h).1
      rw [tokens, hrest] at this
      cases this
  · exact Moves.of_word rfl (next_of_peek hn h) rfl

theorem endWords_end (n : String) (hn : n ∈ statementWords) (hfor : n ≠ "for") : EndWords [n] := by
  intro m hm
  rw [List.mem_singleton.1 hm]
  exact ⟨hn, hfor⟩

theorem bodyAndEnd_moves (hp : parts.Sound) {n : String} (hends : EndWords [n]) {b : List Stmt}
    (h : parts.bodyAndEnd n s = .ok (b, s')) : Moves .words .words s s' (∀ x ∈ b, x.Metered) := by
  obtain ⟨_, s1, hstart, h⟩ := bind_ok.1 h
  obtain ⟨b', s2, hb, h⟩ := bind_ok.1 h
  obtain ⟨t, s3, hnext, h⟩ := bind_ok.1 h
  obtain ⟨rfl, rfl⟩ := pure_ok.1 h
  obtain ⟨hb, hend⟩ := body_moves hp hends hb
  exact (((Moves.of_blockEnd (expect_ok hstart)).trans hb).trans (next_moves hend hnext)).mono
    fun hall => hall.1.2

theorem forLoop_moves (hp : parts.Sound) {line : Nat} {x : Stmt} (h : parts.forLoop line s = .ok (x, s')) :
    Moves .loop .words s s' x.Metered := by
  obtain ⟨target, s1, htarget, h⟩ := bind_ok.1 h
  obtain ⟨_, s2, hin, h⟩ := bind_ok.1 h
  obtain ⟨subject, s3, hsubject, h⟩ := bind_ok.1 h
  have hhead := ((Moves.of_reads (p := .loop) rfl (hp.targets _ _ _ htarget)).trans
    (Moves.of_word rfl (expect_ok hin) rfl)).trans (Moves.of_reads rfl (hp.plain _ _ _ hsubject))
  -- What comes behind the condition.
  have htail : ∀ {s4 : ParserState} {keep : Option Expr},
      Moves .loop .loop s3 s4 (tickFunction ∉ optionNames keep) →
      (do
        let recursive ← skipName "recursive"
        endOfBlock
        let b ← parts.body ["endfor", "else"]
        let other ← if ← skipName "else" then do
            endOfBlock
            parts.body ["endfor"]
          else pure []
        let _ ← next
        return .forLoop line (.mk target subject keep recursive b other) : Parser Stmt) s4 = .ok (x, s') →
      Moves .loop .words s s' x.Metered := by
    intro s4 keep hkeep h
    obtain ⟨recursive, s5, hskip, h⟩ := bind_ok.1 h
    have hrec : Moves .loop .loop s4 s5 True := by
      rcases skip_ok hskip with ⟨-, htook⟩ | ⟨-, rfl⟩
      · exact Moves.of_word rfl htook rfl
      · exact .refl _ _
    obtain ⟨_, s6, hend, h⟩ := bind_ok.1 h
    obtain ⟨b, s7, hb, h⟩ := bind_ok.1 h
    have hends : EndWords ["endfor", "else"] := by
      intro n hn
      simp only [List.mem_cons, List.not_mem_nil, or_false] at hn
      rcases hn with rfl | rfl <;> exact ⟨by decide, by decide⟩
    obtain ⟨hb, hstop⟩ := loopBody_moves hp hends (by decide) hb
    have hbody := (((hhead.trans hkeep).trans hrec).trans (Moves.of_loopEnd (expect_ok hend))).trans hb
    have hlast : ∀ {s8 : ParserState} {other : List Stmt}, AtEnd s8 →
        Moves .words .words s7 s8 (∀ x ∈ other, x.Metered) →
        (do
          let _ ← next
          return .forLoop line (.mk target subject keep recursive b other) : Parser Stmt) s8 = .ok (x, s') →
        Moves .loop .words s s' x.Metered := by
      intro s8 other hstop hother h
      obtain ⟨t, s9, hnext, h⟩ := bind_ok.1 h
      obtain ⟨rfl, rfl⟩ := pure_ok.1 h
      refine ((hbody.trans hother).trans (next_moves hstop hnext)).mono ?_
      rintro ⟨⟨⟨⟨⟨⟨⟨⟨htarget, -⟩, hsubject⟩, hkeep⟩, -⟩, -⟩, hcounts, hb⟩, hother⟩, -⟩
      refine ⟨?_, hcounts, ?_⟩
      · simp only [Stmt.headNames, List.mem_append, not_or]
        exact ⟨htarget, hsubject, hkeep⟩
      · intro y hy
        exact (List.mem_append.1 hy).elim (hb y) (hother y)
    obtain ⟨c, s8, hskip', h⟩ := bind_ok.1 h
    rcases skip_ok hskip' with ⟨rfl, htook⟩ | ⟨rfl, rfl⟩
    · obtain ⟨_, s9, hend', h⟩ := bind_ok.1 h
      obtain ⟨other, s10, hother, h⟩ := bind_ok.1 h
      obtain ⟨hother, hstop'⟩ := body_moves hp (endWords_end "endfor" (by decide) (by decide)) hother
      exact hlast hstop' (((Moves.of_word rfl htook rfl).trans
        ((Moves.of_blockEnd (expect_ok hend')).trans hother)).mono fun hall => hall.2.2) h
    · refine hlast hstop ?_ h
      exact (Moves.refl _ _).mono fun _ => nofun
  obtain ⟨c, s4, hskip, h⟩ := bind_ok.1 h
  rcases skip_ok hskip with ⟨rfl, htook⟩ | ⟨rfl, rfl⟩
  · obtain ⟨e, s5, he, h⟩ := bind_ok.1 h
    exact htail (((Moves.of_word rfl htook rfl).trans (Moves.of_reads rfl (hp.expr _ _ _ he))).mono And.right) h
  · exact htail ((Moves.refl _ _).mono fun _ => List.not_mem_nil) h

theorem ifThen_moves (hp : parts.Sound) {fuel : Nat} {x : Stmt} (h : parts.ifThen fuel s = .ok (x, s')) :
    Moves .words .words s s' x.Metered := by
  induction fuel generalizing s x with
  | zero => exact (fail_ok.1 h).elim
  | succ fuel ih =>
    rw [Parts.ifThen] at h
    obtain ⟨test, s1, htest, h⟩ := bind_ok.1 h
    obtain ⟨_, s2, hend, h⟩ := bind_ok.1 h
    obtain ⟨yes, s3, hyes, h⟩ := bind_ok.1 h
    obtain ⟨t, s4, hnext, h⟩ := bind_ok.1 h
    have hends : EndWords ["endif", "else", "elif"] := by
      intro n hn
      simp only [List.mem_cons, List.not_mem_nil, or_false] at hn
      rcases hn with rfl | rfl | rfl <;> exact ⟨by decide, by decide⟩
    obtain ⟨hyes, hstop⟩ := body_moves hp hends hyes
    have hhead := (((Moves.of_reads (p := .words) rfl (hp.expr _ _ _ htest)).trans
      (Moves.of_blockEnd (expect_ok hend))).trans hyes).trans (next_moves hstop hnext)
    have hlast : ∀ {no : List Stmt}, Moves .words .words s4 s' (∀ y ∈ no, y.Metered) →
        Moves .words .words s s' (Stmt.ifThen test yes no).Metered := by
      intro no hno
      refine (hhead.trans hno).mono ?_
      rintro ⟨⟨⟨⟨htest, -⟩, hyes⟩, -⟩, hno⟩
      refine ⟨htest, trivial, ?_⟩
      intro y hy
      exact (List.mem_append.1 hy).elim (hyes y) (hno y)
    split at h
    · obtain ⟨no, s5, hno, h⟩ := bind_ok.1 h
      obtain ⟨rfl, rfl⟩ := pure_ok.1 h
      exact hlast (bodyAndEnd_moves hp (endWords_end _ (by decide) (by decide)) hno)
    · obtain ⟨no, s5, hno, h⟩ := bind_ok.1 h
      obtain ⟨rfl, rfl⟩ := pure_ok.1 h
      refine hlast ((ih hno).mono ?_)
      intro hno y hy
      rw [List.mem_singleton.1 hy]
      exact hno
    · obtain ⟨rfl, rfl⟩ := pure_ok.1 h
      exact hlast ((Moves.refl _ _).mono fun _ => nofun)

theorem withValues_moves (hp : parts.Sound) {line : Nat} {x : Stmt} (h : parts.withValues line s = .ok (x, s')) :
    Moves .words .words s s' x.Metered := by
  obtain ⟨fuel, s1, hfuel, h⟩ := bind_ok.1 h
  obtain ⟨-, rfl⟩ := tokensLeft_ok hfuel
  obtain ⟨bs, s1, hbs, h⟩ := bind_ok.1 h
  obtain ⟨b, s2, hb, h⟩ := bind_ok.1 h
  obtain ⟨rfl, rfl⟩ := pure_ok.1 h
  have hbs := Moves.of_reads (p := .words) rfl (bindings_reads hp.toReadHeads hbs)
  have hb := bodyAndEnd_moves hp (endWords_end _ (by decide) (by decide)) hb
  exact (hbs.trans hb).mono fun ⟨hhead, hinner⟩ => ⟨hhead, trivial, hinner⟩

theorem set_moves (hp : parts.Sound) {line : Nat} {x : Stmt} (h : parts.set line s = .ok (x, s')) :
    Moves .words .words s s' x.Metered := by
  -- What comes behind the target.
  have htail : ∀ {s1 : ParserState} {target : Target} {inParens : Bool},
      Moves .words .words s s1 (tickFunction ∉ target.names) →
      (do
        let next? ← peek
        if !inParens && (next? == some .blockEnd || next? == some (.symbol .pipe)) then
          let filter ← if ← skipSymbol .pipe then pure (some (← parts.filterChain)) else pure none
          return .setBlock line target filter (← parts.bodyAndEnd "endset")
        else
          expect (.symbol .assign) "assignment operator"
          return .set line target (← parts.expr) : Parser Stmt) s1 = .ok (x, s') →
      Moves .words .words s s' x.Metered := by
    intro s1 target inParens htarget h
    obtain ⟨t, s2, hpeek, h⟩ := bind_ok.1 h
    obtain ⟨-, rfl⟩ := peek_ok hpeek
    split at h
    · have hblock : ∀ {s2 : ParserState} {filter : Option Expr},
          Moves .words .words s1 s2 (tickFunction ∉ optionNames filter) →
          (do return .setBlock line target filter (← parts.bodyAndEnd "endset") : Parser Stmt) s2 = .ok (x, s') →
          Moves .words .words s s' x.Metered := by
        intro s2 filter hfilter h
        obtain ⟨b, s3, hb, h⟩ := bind_ok.1 h
        obtain ⟨rfl, rfl⟩ := pure_ok.1 h
        have hb := bodyAndEnd_moves hp (endWords_end _ (by decide) (by decide)) hb
        refine ((htarget.trans hfilter).trans hb).mono ?_
        rintro ⟨⟨htarget, hfilter⟩, hinner⟩
        refine ⟨?_, trivial, hinner⟩
        simp only [Stmt.headNames, List.mem_append, not_or]
        exact ⟨htarget, hfilter⟩
      obtain ⟨c, s2, hskip, h⟩ := bind_ok.1 h
      rcases skip_ok hskip with ⟨rfl, htook⟩ | ⟨rfl, rfl⟩
      · obtain ⟨e, s3, he, h⟩ := bind_ok.1 h
        exact hblock (((Moves.of_word rfl htook rfl).trans
          (Moves.of_reads rfl (filterChain_reads hp.toReadHeads _ _ _ he))).mono And.right) h
      · exact hblock ((Moves.refl _ _).mono fun _ => List.not_mem_nil) h
    · obtain ⟨_, s2, hassign, h⟩ := bind_ok.1 h
      obtain ⟨e, s3, he, h⟩ := bind_ok.1 h
      obtain ⟨rfl, rfl⟩ := pure_ok.1 h
      refine ((htarget.trans (Moves.of_word rfl (expect_ok hassign) rfl)).trans
        (Moves.of_reads rfl (hp.expr _ _ _ he))).mono ?_
      rintro ⟨⟨htarget, -⟩, he⟩
      refine ⟨?_, trivial, nofun⟩
      simp only [Stmt.headNames, List.mem_append, not_or]
      exact ⟨htarget, he⟩
  obtain ⟨inParens, s1, hskip, h⟩ := bind_ok.1 h
  have hopen : Moves .words .words s s1 True := by
    rcases skip_ok hskip with ⟨-, htook⟩ | ⟨-, rfl⟩
    · exact Moves.of_word rfl htook rfl
    · exact .refl _ _
  obtain ⟨target, s2, htarget, h⟩ := bind_ok.1 h
  have htarget := (hopen.trans (Moves.of_reads rfl (hp.targets _ _ _ htarget))).mono And.right
  cases inParens with
  | true =>
    obtain ⟨_, s3, hclose, h⟩ := bind_ok.1 h
    exact htail ((htarget.trans (Moves.of_word rfl (expect_ok hclose) rfl)).mono And.left) h
  | false => exact htail htarget h

theorem block_moves (hp : parts.Sound) {line : Nat} {x : Stmt} (h : parts.block line s = .ok (x, s')) :
    Moves .words .words s s' x.Metered := by
  have hend : ∀ {s1 : ParserState} {name : String} {b : List Stmt},
      Moves .words .words s s1 (∀ y ∈ b, y.Metered) → (pure (.block line name b) : Parser Stmt) s1 = .ok (x, s') →
      Moves .words .words s s' x.Metered := by
    intro s1 name b hb h
    obtain ⟨rfl, rfl⟩ := pure_ok.1 h
    exact hb.mono fun hinner => ⟨List.not_mem_nil, trivial, hinner⟩
  obtain ⟨s1, s1', hget, h⟩ := bind_ok.1 h
  cases hget
  split at h
  · exact (fail_ok.1 h).elim
  · obtain ⟨name, s1, hname, h⟩ := bind_ok.1 h
    have hname := Moves.of_word (p := .words) rfl (identifier_ok hname) rfl
    obtain ⟨s2, s2', hget, h⟩ := bind_ok.1 h
    cases hget
    split at h
    · exact (fail_ok.1 h).elim
    · obtain ⟨_, s2, hmodify, h⟩ := bind_ok.1 h
      have hmodify : Moves .words .words s1 s2 True := by
        cases hmodify
        exact Moves.same _ rfl rfl
      obtain ⟨b, s3, hb, h⟩ := bind_ok.1 h
      have hb := bodyAndEnd_moves hp (endWords_end _ (by decide) (by decide)) hb
      have hbody := ((hname.trans hmodify).trans hb).mono And.right
      obtain ⟨t, s4, hpeek, h⟩ := bind_ok.1 h
      obtain ⟨ht, rfl⟩ := peek_ok hpeek
      split at h
      · split at h
        · obtain ⟨_, s5, hnext, h⟩ := bind_ok.1 h
          exact hend ((hbody.trans (Moves.of_word rfl (next_of_peek ht.symm hnext) rfl)).mono And.left) h
        · exact (fail_ok.1 h).elim
      · exact hend hbody h

theorem includeFile_moves (hp : parts.Sound) {line : Nat} {x : Stmt}
    (h : parts.includeFile line s = .ok (x, s')) : Moves .words .words s s' x.Metered := by
  obtain ⟨name, s1, hname, h⟩ := bind_ok.1 h
  obtain ⟨_, s2, hwords, h⟩ := bind_ok.1 h
  have hhead := ((Moves.of_reads (p := .words) rfl (hp.expr _ _ _ hname)).trans
    (Moves.of_reads rfl (contextWords_reads _ _ _ hwords))).mono And.left
  obtain ⟨c, s3, hskip, h⟩ := bind_ok.1 h
  rcases skip_ok hskip with ⟨rfl, htook⟩ | ⟨rfl, rfl⟩
  · obtain ⟨_, s4, hmissing, h⟩ := bind_ok.1 h
    obtain ⟨_, s5, hwords', h⟩ := bind_ok.1 h
    obtain ⟨rfl, rfl⟩ := pure_ok.1 h
    exact (((hhead.trans (Moves.of_word rfl htook rfl)).trans (Moves.of_word rfl (expect_ok hmissing) rfl)).trans
      (Moves.of_reads rfl (contextWords_reads _ _ _ hwords'))).mono fun hall => ⟨hall.1.1.1, trivial, nofun⟩
  · obtain ⟨rfl, rfl⟩ := pure_ok.1 h
    exact hhead.mono fun hname => ⟨hname, trivial, nofun⟩

theorem importAs_moves (hp : parts.Sound) {line : Nat} {x : Stmt} (h : parts.importAs line s = .ok (x, s')) :
    Moves .words .words s s' x.Metered := by
  obtain ⟨name, s1, hname, h⟩ := bind_ok.1 h
  obtain ⟨_, s2, has, h⟩ := bind_ok.1 h
  obtain ⟨targetLine, s3, hline, h⟩ := bind_ok.1 h
  cases nextLine_ok hline
  obtain ⟨n, s3, hn, h⟩ := bind_ok.1 h
  obtain ⟨_, s4, hwords, h⟩ := bind_ok.1 h
  obtain ⟨rfl, rfl⟩ := pure_ok.1 h
  refine ((((Moves.of_reads (p := .words) rfl (hp.expr _ _ _ hname)).trans
    (Moves.of_word rfl (expect_ok has) rfl)).trans (Moves.of_reads rfl (assignName_reads _ _ _ hn))).trans
    (Moves.of_reads rfl (contextWords_reads _ _ _ hwords))).mono ?_
  rintro ⟨⟨⟨hname, -⟩, hn⟩, -⟩
  refine ⟨?_, trivial, nofun⟩
  simp only [Stmt.headNames, Target.names, List.mem_append, not_or]
  exact ⟨hname, hn⟩

theorem importNames_moves (hp : parts.Sound) {line : Nat} {x : Stmt}
    (h : parts.importNames line s = .ok (x, s')) : Moves .words .words s s' x.Metered := by
  obtain ⟨name, s1, hname, h⟩ := bind_ok.1 h
  obtain ⟨_, s2, himport, h⟩ := bind_ok.1 h
  obtain ⟨fuel, s3, hfuel, h⟩ := bind_ok.1 h
  obtain ⟨-, rfl⟩ := tokensLeft_ok hfuel
  obtain ⟨ns, s3, hns, h⟩ := bind_ok.1 h
  obtain ⟨rfl, rfl⟩ := pure_ok.1 h
  refine (((Moves.of_reads (p := .words) rfl (hp.expr _ _ _ hname)).trans
    (Moves.of_word rfl (expect_ok himport) rfl)).trans (Moves.of_reads rfl (importedNames_reads hns))).mono ?_
  rintro ⟨⟨hname, -⟩, hns⟩
  refine ⟨?_, trivial, nofun⟩
  simp only [Stmt.headNames, List.mem_append, not_or]
  exact ⟨hname, hns⟩

theorem macroBody_moves (hp : parts.Sound) {line : Nat} {name end_ : String} {params : List String}
    {defaults : List Expr} {m : Macro} (hends : EndWords [end_])
    (h : parts.macroBody line name params defaults end_ s = .ok (m, s')) :
    Moves .words .words s s' (m.headNames = name :: (params ++ exprsNames defaults) ∧ ∀ y ∈ m.body, y.Metered) := by
  obtain ⟨_, s1, hstart, h⟩ := bind_ok.1 h
  obtain ⟨s2, s2', hget, h⟩ := bind_ok.1 h
  cases hget
  obtain ⟨_, s2, hmodify, h⟩ := bind_ok.1 h
  have hmodify : Moves .text .text s1 s2 True := by
    cases hmodify
    exact Moves.same _ rfl rfl
  obtain ⟨b, s3, hb, h⟩ := bind_ok.1 h
  obtain ⟨hb, hstop⟩ := body_moves hp hends hb
  obtain ⟨_, s4, hmodify', h⟩ := bind_ok.1 h
  have hsame : s4.rest = s3.rest ∧ s4.fault = s3.fault := by
    cases hmodify'
    exact ⟨rfl, rfl⟩
  have hstop : AtEnd s4 := by
    rw [AtEnd, tokens, hsame.1, hsame.2]
    exact hstop
  obtain ⟨t, s5, hnext, h⟩ := bind_ok.1 h
  obtain ⟨rfl, rfl⟩ := pure_ok.1 h
  refine (((((Moves.of_blockEnd (expect_ok hstart)).trans hmodify).trans hb).trans
    (Moves.same _ hsame.1 hsame.2)).trans (next_moves hstop hnext)).mono ?_
  rintro ⟨⟨⟨-, hinner⟩, -⟩, -⟩
  exact ⟨rfl, hinner⟩

theorem define_moves (hp : parts.Sound) {line : Nat} {x : Stmt} (h : parts.define line s = .ok (x, s')) :
    Moves .words .words s s' x.Metered := by
  obtain ⟨name, s1, hname, h⟩ := bind_ok.1 h
  obtain ⟨_, s2, hopen, h⟩ := bind_ok.1 h
  obtain ⟨fuel, s3, hfuel, h⟩ := bind_ok.1 h
  obtain ⟨-, rfl⟩ := tokensLeft_ok hfuel
  obtain ⟨⟨params, defaults⟩, s3, hparams, h⟩ := bind_ok.1 h
  obtain ⟨m, s4, hm, h⟩ := bind_ok.1 h
  obtain ⟨rfl, rfl⟩ := pure_ok.1 h
  have hm := macroBody_moves hp (endWords_end _ (by decide) (by decide)) hm
  refine ((((Moves.of_reads (p := .words) rfl (identifier_ok hname).name).trans
    (Moves.of_word rfl (expect_ok hopen) rfl)).trans
    (Moves.of_takes rfl (parameters_takes hp.toReadHeads hparams))).trans hm).mono ?_
  rintro ⟨⟨⟨hname, -⟩, hparams⟩, hhead, hinner⟩
  refine ⟨?_, trivial, hinner⟩
  rw [Stmt.headNames, hhead, List.mem_cons, not_or]
  exact ⟨fun heq => hname (by rw [heq]; exact List.mem_singleton_self _), hparams⟩

theorem callBlock_moves (hp : parts.Sound) {line : Nat} {x : Stmt} (h : parts.callBlock line s = .ok (x, s')) :
    Moves .words .words s s' x.Metered := by
  have htail : ∀ {s1 : ParserState} {params : List String} {defaults : List Expr},
      Moves .words .words s s1 (tickFunction ∉ params ++ exprsNames defaults) →
      (do
        let c ← parts.call
        return .callBlock line c (← parts.macroBody line "caller" params defaults "endcall") : Parser Stmt) s1 =
        .ok (x, s') → Moves .words .words s s' x.Metered := by
    intro s1 params defaults hparams h
    obtain ⟨c, s2, hc, h⟩ := bind_ok.1 h
    obtain ⟨m, s3, hm, h⟩ := bind_ok.1 h
    obtain ⟨rfl, rfl⟩ := pure_ok.1 h
    have hm := macroBody_moves hp (endWords_end _ (by decide) (by decide)) hm
    refine ((hparams.trans (Moves.of_reads rfl (call_reads hp.toReadHeads _ _ _ hc))).trans hm).mono ?_
    rintro ⟨⟨hparams, hc⟩, hhead, hinner⟩
    refine ⟨?_, trivial, hinner⟩
    rw [Stmt.headNames, hhead, List.mem_append, List.mem_cons, not_or, not_or]
    exact ⟨hc, by decide, hparams⟩
  obtain ⟨b, s1, hskip, h⟩ := bind_ok.1 h
  rcases skip_ok hskip with ⟨rfl, htook⟩ | ⟨rfl, rfl⟩
  · obtain ⟨fuel, s2, hfuel, h⟩ := bind_ok.1 h
    obtain ⟨-, rfl⟩ := tokensLeft_ok hfuel
    obtain ⟨⟨params, defaults⟩, s2, hparams, h⟩ := bind_ok.1 h
    exact htail (((Moves.of_word rfl htook rfl).trans
      (Moves.of_takes rfl (parameters_takes hp.toReadHeads hparams))).mono And.right) h
  · exact htail ((Moves.refl _ _).mono fun _ => List.not_mem_nil) h

/-! ### Whole templates -/

/-- A tag that opens a block is left behind its first word. -/
theorem opening_goes {n : String} {ts : List Token} (hn : n ∈ statementWords) (hfor : n ≠ "for") :
    Goes .text (.blockStart :: .name n :: ts) .words ts True := by
  intro hshaped
  refine ⟨.block hn hshaped, fun hwoven => ?_⟩
  cases hwoven with
  | word hp => cases hp
  | block _ hwoven => exact ⟨(Woven.of_word rfl rfl hwoven).2, trivial⟩
  | loop => exact absurd rfl hfor

theorem loopOpening_goes {ts : List Token} : Goes .text (.blockStart :: .name "for" :: ts) .loop ts True := by
  intro hshaped
  refine ⟨.block (by decide) hshaped, fun hwoven => ?_⟩
  cases hwoven with
  | word hp => cases hp
  | block hfor _ => exact absurd rfl hfor
  | loop hwoven => exact ⟨hwoven, trivial⟩

theorem statement_moves (hp : parts.Sound) {x : Stmt} (h : parts.statement s = .ok (x, s')) :
    s'.fault = s.fault ∧ s'.rest.length ≤ s.rest.length ∧
      Goes .text (.blockStart :: s.tokens) .words s'.tokens x.Metered := by
  obtain ⟨line, s1, hline, h⟩ := bind_ok.1 h
  cases nextLine_ok hline
  obtain ⟨t, s1, ht, h⟩ := bind_ok.1 h
  have hall : ∀ {n : String}, Took (.name n) s s1 → n ∈ statementWords → n ≠ "for" →
      Moves .words .words s1 s' x.Metered →
      s'.fault = s.fault ∧ s'.rest.length ≤ s.rest.length ∧
        Goes .text (.blockStart :: s.tokens) .words s'.tokens x.Metered := by
    intro n htook hn hfor hmoves
    have hword := Moves.of_word (p := .words) rfl htook rfl
    refine ⟨hmoves.fault.trans hword.fault, hmoves.length.trans hword.length, ?_⟩
    rw [htook.1]
    exact ((opening_goes hn hfor).trans hmoves.goes).mono And.right
  cases t with
  | none => exact (fail_ok.1 h).elim
  | some t =>
    have htook := next_some ht
    cases t with
    | name n =>
      dsimp only at h
      split at h
      · have hmoves := forLoop_moves hp h
        have hword := Moves.of_word (p := .words) rfl htook rfl
        refine ⟨hmoves.fault.trans hword.fault, hmoves.length.trans hword.length, ?_⟩
        rw [htook.1]
        exact (loopOpening_goes.trans hmoves.goes).mono And.right
      · obtain ⟨fuel, s2, hfuel, h⟩ := bind_ok.1 h
        obtain ⟨-, rfl⟩ := tokensLeft_ok hfuel
        exact hall htook (by decide) (by decide) (ifThen_moves hp h)
      · exact hall htook (by decide) (by decide) (withValues_moves hp h)
      · exact hall htook (by decide) (by decide) (set_moves hp h)
      · obtain ⟨mode, s2, hmode, h⟩ := bind_ok.1 h
        obtain ⟨b, s3, hb, h⟩ := bind_ok.1 h
        obtain ⟨rfl, rfl⟩ := pure_ok.1 h
        have hb := bodyAndEnd_moves hp (endWords_end _ (by decide) (by decide)) hb
        exact hall htook (by decide) (by decide) (((Moves.of_reads rfl (hp.expr _ _ _ hmode)).trans hb).mono
          fun ⟨hhead, hinner⟩ => ⟨hhead, trivial, hinner⟩)
      · obtain ⟨f, s2, hf, h⟩ := bind_ok.1 h
        obtain ⟨b, s3, hb, h⟩ := bind_ok.1 h
        obtain ⟨rfl, rfl⟩ := pure_ok.1 h
        have hb := bodyAndEnd_moves hp (endWords_end _ (by decide) (by decide)) hb
        exact hall htook (by decide) (by decide)
          (((Moves.of_reads rfl (filterChain_reads hp.toReadHeads _ _ _ hf)).trans hb).mono
            fun ⟨hhead, hinner⟩ => ⟨hhead, trivial, hinner⟩)
      · exact hall htook (by decide) (by decide) (block_moves hp h)
      · obtain ⟨e, s2, he, h⟩ := bind_ok.1 h
        obtain ⟨rfl, rfl⟩ := pure_ok.1 h
        exact hall htook (by decide) (by decide) ((Moves.of_reads rfl (hp.expr _ _ _ he)).mono
          fun hhead => ⟨hhead, trivial, nofun⟩)
      · exact hall htook (by decide) (by decide) (includeFile_moves hp h)
      · exact hall htook (by decide) (by decide) (importAs_moves hp h)
      · exact hall htook (by decide) (by decide) (importNames_moves hp h)
      · exact hall htook (by decide) (by decide) (define_moves hp h)
      · exact hall htook (by decide) (by decide) (callBlock_moves hp h)
      · obtain ⟨e, s2, he, h⟩ := bind_ok.1 h
        obtain ⟨rfl, rfl⟩ := pure_ok.1 h
        exact hall htook (by decide) (by decide) ((Moves.of_reads rfl (call_reads hp.toReadHeads _ _ _ he)).mono
          fun hhead => ⟨hhead, trivial, nofun⟩)
      · exact (fail_ok.1 h).elim
    | _ => exact (fail_ok.1 h).elim

theorem statement_reads (room : Nat) : ReadsBlocks (statement room) := by
  induction room with
  | zero => exact ⟨nofun, nofun, nofun, statement_isTick⟩
  | succ room ih =>
    have hp : Parts.Sound
        { expr := expression true room
          plain := expression false (room + 1)
          stmt := statement room
          targets := targets room } :=
      { expr := expression_reads true room
        plain := expression_reads false (room + 1)
        targets := targets_reads room
        maps := expression_meetsMaps true room
        stmt := ih }
    exact ⟨fun h => (statement_moves hp h).1, fun h => (statement_moves hp h).2.1,
      fun h => (statement_moves hp h).2.2, statement_isTick⟩

/-- What a template is parsed from has the shape of a template and no fault, and if every loop body in it
begins with a tick, then every loop of the template counts its bodies. -/
theorem template_sound {b : List Stmt} (h : template s = .ok (b, s')) :
    s.fault = none ∧ Shaped false s.tokens ∧ (Woven .text s.tokens → ∀ x ∈ b, x.Metered) := by
  obtain ⟨fuel, s1, hfuel, h⟩ := bind_ok.1 h
  obtain ⟨rfl, rfl⟩ := tokensLeft_ok hfuel
  rcases bodyUntil_moves (expression_reads true greatestDepth) (expression_meetsMaps true greatestDepth)
    (statement_reads greatestDepth) (fun _ hn => absurd hn List.not_mem_nil) (Nat.lt_succ_self _) h with ⟨hmoves, hrest, hfault⟩ | ⟨-, n, hn, -⟩
  · have hend : Shaped Place.text.inTag s'.tokens := by
      rw [tokens, hrest]
      exact .nil
    obtain ⟨hshaped, hwoven⟩ := hmoves.goes hend
    exact ⟨hmoves.fault.symm.trans hfault, hshaped, fun hw => (hwoven hw).2⟩
  · cases hn

end SecureLayout.Template.Parser
