import SecureLayout.Proofs.Template.Shape
import SecureLayout.Template.Parser

/-!
What parsers of expressions consume. Main statement: an expression is read from words whose brackets match,
and every name in it is one of these words.
-/

namespace SecureLayout.Template

/-! ### Names in expressions -/

mutual

/-- Every name that stands in an expression. -/
def Expr.names : Expr → List String
  | .var _ n => [n]
  | .literal _ _ => []
  | .list _ es => exprsNames es
  | .map _ es => pairsNames es
  | .unary _ _ e => e.names
  | .binary _ _ a b => a.names ++ b.names
  | .compare _ e r => e.names ++ comparisonsNames r
  | .choice _ t y n => t.names ++ (y.names ++ optionNames n)
  | .filter _ n e args => n :: (optionNames e ++ argsNames args)
  | .test _ n e args => n :: (e.names ++ argsNames args)
  | .attr _ e n => n :: e.names
  | .item _ e k => e.names ++ k.names
  | .slice _ e a b c => e.names ++ (optionNames a ++ (optionNames b ++ optionNames c))
  | .call _ f args => f.names ++ argsNames args

def Arg.names : Arg → List String
  | .positional e => e.names
  | .named n e => n :: e.names
  | .spread e => e.names
  | .spreadNamed e => e.names

def optionNames : Option Expr → List String
  | none => []
  | some e => e.names

def exprsNames : List Expr → List String
  | [] => []
  | e :: r => e.names ++ exprsNames r

def pairsNames : List (Expr × Expr) → List String
  | [] => []
  | (k, e) :: r => k.names ++ (e.names ++ pairsNames r)

def comparisonsNames : List (Comparison × Expr) → List String
  | [] => []
  | (_, e) :: r => e.names ++ comparisonsNames r

def argsNames : List Arg → List String
  | [] => []
  | a :: r => a.names ++ argsNames r

end

attribute [simp] Expr.names Arg.names optionNames exprsNames pairsNames comparisonsNames argsNames

theorem exprsNames_eq (es : List Expr) : exprsNames es = es.flatMap Expr.names := by
  induction es with
  | nil => rfl
  | cons e es ih => rw [exprsNames, ih, List.flatMap_cons]

theorem pairsNames_eq (ps : List (Expr × Expr)) :
    pairsNames ps = ps.flatMap fun p => p.1.names ++ p.2.names := by
  induction ps with
  | nil => rfl
  | cons p ps ih =>
    obtain ⟨k, e⟩ := p
    rw [pairsNames, ih, List.flatMap_cons, List.append_assoc]

theorem argsNames_eq (as : List Arg) : argsNames as = as.flatMap Arg.names := by
  induction as with
  | nil => rfl
  | cons a as ih => rw [argsNames, ih, List.flatMap_cons]

/-! ### Brackets of a stretch of words -/

/-- The depth of brackets behind a stretch of tokens. -/
def closes (d : Nat) (ts : List Token) : Option Nat :=
  ts.foldlM Token.depth? d

theorem closes_append (d : Nat) (ts us : List Token) :
    closes d (ts ++ us) = (closes d ts).bind fun d' => closes d' us := by
  rw [closes, List.foldlM_append]
  rfl

/-- A key ends behind words whose brackets match. -/
theorem KeyEnds.of_closes {d d' : Nat} {ts us : List Token} (h : closes d ts = some d')
    (hk : KeyEnds d' us) : KeyEnds d (ts ++ us) := by
  induction ts generalizing d with
  | nil =>
    cases h
    exact hk
  | cons t ts ih =>
    rw [closes, List.foldlM_cons] at h
    cases hd : t.depth? d with
    | none =>
      rw [hd] at h
      cases h
    | some d1 =>
      rw [hd] at h
      refine .inr ?_
      rw [hd]
      exact ih h

/-! ### What is read between two states -/

namespace ParserState

def tokens (s : ParserState) : List Token :=
  s.rest.map Spanned.token

/-- One token was read. -/
def Took (t : Token) (s s' : ParserState) : Prop :=
  s.tokens = t :: s'.tokens ∧ s'.fault = s.fault

/-- Words were read, among them some names; brackets lie `a` deep before and `b` deep behind them. -/
def Reads (a b : Nat) (s s' : ParserState) (ns : List String) : Prop :=
  ∃ mid, s.tokens = mid ++ s'.tokens ∧ s'.fault = s.fault ∧ (∀ t ∈ mid, t.isWord = true) ∧
    (∀ d, closes (a + d) mid = some (b + d)) ∧ ∀ n ∈ ns, Token.name n ∈ mid

variable {a b c : Nat} {s s' s'' : ParserState} {ns ms : List String}

theorem Reads.refl (a : Nat) (s : ParserState) : Reads a a s s [] :=
  ⟨[], rfl, rfl, nofun, fun _ => rfl, nofun⟩

theorem Reads.trans (h : Reads a b s s' ns) (h' : Reads b c s' s'' ms) : Reads a c s s'' (ns ++ ms) := by
  obtain ⟨mid, hs, hf, hw, hc, hn⟩ := h
  obtain ⟨mid', hs', hf', hw', hc', hn'⟩ := h'
  refine ⟨mid ++ mid', ?_, hf'.trans hf, ?_, ?_, ?_⟩
  · rw [hs, hs', List.append_assoc]
  · intro t ht
    rcases List.mem_append.1 ht with ht | ht
    · exact hw t ht
    · exact hw' t ht
  · intro d
    rw [closes_append, hc]
    exact hc' d
  · intro n hn''
    rcases List.mem_append.1 hn'' with hn'' | hn''
    · exact List.mem_append_left _ (hn n hn'')
    · exact List.mem_append_right _ (hn' n hn'')

theorem Reads.mono (h : Reads a b s s' ns) (hm : ms ⊆ ns) : Reads a b s s' ms := by
  obtain ⟨mid, hs, hf, hw, hc, hn⟩ := h
  exact ⟨mid, hs, hf, hw, hc, fun n hmem => hn n (hm hmem)⟩

/-- What matches at some depth matches one deeper. -/
theorem Reads.deeper (h : Reads a b s s' ns) : Reads (a + 1) (b + 1) s s' ns := by
  obtain ⟨mid, hs, hf, hw, hc, hn⟩ := h
  refine ⟨mid, hs, hf, hw, fun d => ?_, hn⟩
  rw [Nat.add_assoc, Nat.add_assoc]
  exact hc (1 + d)

/-- A word that is no bracket. -/
theorem Took.word {t : Token} (h : Took t s s') (hw : t.isWord = true) (hd : ∀ d, t.depth? d = some d) :
    Reads 0 0 s s' [] := by
  refine ⟨[t], h.1, h.2, ?_, fun d => ?_, nofun⟩
  · intro x hx
    rw [List.mem_singleton.1 hx]
    exact hw
  · rw [closes, List.foldlM_cons, hd]
    rfl

theorem Took.name {n : String} (h : Took (.name n) s s') : Reads 0 0 s s' [n] := by
  refine ⟨[.name n], h.1, h.2, ?_, fun d => rfl, ?_⟩
  · intro x hx
    rw [List.mem_singleton.1 hx]
    rfl
  · intro m hm
    rw [List.mem_singleton.1 hm]
    exact List.mem_singleton_self _

/-- An opening bracket. -/
theorem Took.opening {t : Token} (h : Took t s s') (hw : t.isWord = true)
    (hd : ∀ d, t.depth? d = some (d + 1)) : Reads 0 1 s s' [] := by
  refine ⟨[t], h.1, h.2, ?_, fun d => ?_, nofun⟩
  · intro x hx
    rw [List.mem_singleton.1 hx]
    exact hw
  · rw [closes, List.foldlM_cons, hd, Nat.zero_add, Nat.add_comm]
    rfl

/-- A closing bracket. -/
theorem Took.closing {t : Token} (h : Took t s s') (hw : t.isWord = true)
    (hd : ∀ d, t.depth? (1 + d) = some d) : Reads 1 0 s s' [] := by
  refine ⟨[t], h.1, h.2, ?_, fun d => ?_, nofun⟩
  · intro x hx
    rw [List.mem_singleton.1 hx]
    exact hw
  · rw [closes, List.foldlM_cons, hd, Nat.zero_add]
    rfl

end ParserState

/-! ### Parsers of single tokens -/

namespace Parser

open ParserState

variable {α β : Type} {s s' : ParserState}

theorem bind_ok {p : Parser α} {f : α → Parser β} {y : β} :
    (p >>= f) s = .ok (y, s') ↔ ∃ x s1, p s = .ok (x, s1) ∧ f x s1 = .ok (y, s') := by
  constructor
  · intro h
    cases hp : p s with
    | error e =>
      rw [show (p >>= f) s = (p s).bind fun r => f r.1 r.2 from rfl, hp] at h
      cases h
    | ok r =>
      rw [show (p >>= f) s = (p s).bind fun r => f r.1 r.2 from rfl, hp] at h
      exact ⟨r.1, r.2, rfl, h⟩
  · rintro ⟨x, s1, hp, hf⟩
    rw [show (p >>= f) s = (p s).bind fun r => f r.1 r.2 from rfl, hp]
    exact hf

theorem pure_ok {x y : α} : (pure x : Parser α) s = .ok (y, s') ↔ x = y ∧ s = s' := by
  constructor
  · intro h
    cases h
    exact ⟨rfl, rfl⟩
  · rintro ⟨rfl, rfl⟩
    rfl

theorem fail_ok {detail : String} {y : α} : (fail detail : Parser α) s = .ok (y, s') ↔ False :=
  ⟨nofun, False.elim⟩

theorem unexpected_ok {t : Option Token} {expected : String} {y : α} :
    (unexpected t expected : Parser α) s = .ok (y, s') ↔ False := by
  cases t <;> exact fail_ok

theorem nextLine_ok {line : Nat} (h : nextLine s = .ok (line, s')) : s = s' := by
  cases h
  rfl

theorem tokensLeft_ok {n : Nat} (h : tokensLeft s = .ok (n, s')) : n = s.rest.length ∧ s = s' := by
  cases h
  exact ⟨rfl, rfl⟩

theorem peek_ok {t : Option Token} (h : peek s = .ok (t, s')) : t = s.tokens.head? ∧ s = s' := by
  unfold peek at h
  unfold tokens
  split at h
  · next x r hs =>
    cases h
    rw [hs]
    exact ⟨rfl, rfl⟩
  · next hs =>
    split at h
    · cases h
    · cases h
      rw [hs]
      exact ⟨rfl, rfl⟩

/-- At the end of the tokens there is no fault. -/
theorem peek_none (h : peek s = .ok (none, s')) : s.rest = [] ∧ s.fault = none := by
  unfold peek at h
  split at h
  · cases h
  · next hs =>
    split at h
    · cases h
    · next hf =>
      exact ⟨hs, hf⟩

theorem next_some {t : Token} (h : next s = .ok (some t, s')) : Took t s s' := by
  obtain ⟨t', s1, hpeek, h⟩ := bind_ok.1 h
  obtain ⟨rfl, rfl⟩ := peek_ok hpeek
  cases hs : s.rest with
  | nil =>
    rw [tokens, hs] at h
    cases h
  | cons x r =>
    rw [tokens, hs] at h
    cases h
    exact ⟨by simp [tokens, hs], by simp [hs]⟩

theorem next_none (h : next s = .ok (none, s')) : s.rest = [] ∧ s.fault = none ∧ s' = s := by
  obtain ⟨t', s1, hpeek, h⟩ := bind_ok.1 h
  cases hs : s.rest with
  | nil =>
    have hs1 := (peek_ok hpeek).2
    subst hs1
    cases t' with
    | none =>
      have hfault := (peek_none hpeek).2
      cases h
      exact ⟨rfl, hfault, by simp [hs]⟩
    | some t' => cases h
  | cons x r =>
    obtain ⟨rfl, rfl⟩ := peek_ok hpeek
    rw [tokens, hs] at h
    cases h

theorem isNext_ok {t : Token} {b : Bool} (h : isNext t s = .ok (b, s')) :
    b = (s.tokens.head? == some t) ∧ s = s' := by
  obtain ⟨t', s1, hpeek, h⟩ := bind_ok.1 h
  obtain ⟨rfl, rfl⟩ := peek_ok hpeek
  cases h
  exact ⟨rfl, rfl⟩

/-- After a look at it the next token is read. -/
theorem next_of_peek {t : Token} {x : Option Token} (hs : s.tokens.head? = some t)
    (h : next s = .ok (x, s')) : Took t s s' := by
  cases x with
  | some x =>
    have htook := next_some h
    rw [htook.1] at hs
    cases hs
    exact htook
  | none =>
    rw [tokens, (next_none h).1] at hs
    cases hs

theorem skip_ok {t : Token} {b : Bool} (h : skip t s = .ok (b, s')) :
    b = true ∧ Took t s s' ∨ b = false ∧ s = s' := by
  obtain ⟨b', s1, hnext, h⟩ := bind_ok.1 h
  obtain ⟨rfl, rfl⟩ := isNext_ok hnext
  split at h
  · next heq =>
    obtain ⟨x, s2, hx, h⟩ := bind_ok.1 h
    cases h
    exact .inl ⟨rfl, next_of_peek (by simpa using heq) hx⟩
  · cases h
    exact .inr ⟨rfl, rfl⟩

theorem expect_ok {t : Token} {expected : String} {u : Unit} (h : expect t expected s = .ok (u, s')) :
    Took t s s' := by
  obtain ⟨x, s1, hx, h⟩ := bind_ok.1 h
  split at h
  · next heq =>
    cases h
    rw [beq_iff_eq.1 heq] at hx
    exact next_some hx
  · exact (unexpected_ok.1 h).elim

theorem identifier_ok {n : String} (h : identifier s = .ok (n, s')) : Took (.name n) s s' := by
  obtain ⟨x, s1, hx, h⟩ := bind_ok.1 h
  split at h
  · cases h
    exact next_some hx
  · exact (unexpected_ok.1 h).elim

end Parser

end SecureLayout.Template
