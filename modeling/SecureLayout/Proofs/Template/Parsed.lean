import SecureLayout.Proofs.Template.Inlined
import SecureLayout.Proofs.Template.Spoken
import SecureLayout.Proofs.Template.Yielding

/-!
What is read from the words of a call. Main statement: text with calls in it is read as texts and calls, whose
arguments stand for what their words denote, `parse_inline`.
-/

namespace SecureLayout.Template

variable {data v w : Json.Value} {ts us rest : List Token} {t : Token}

/-- What an expression without calls and operators stands for on some data. -/
inductive Expr.StandsFor (data : Json.Value) : Expr → Json.Value → Prop
  | text (line : Nat) (t : String) : StandsFor data (.literal line (.text t)) (.text t)
  | integer (line n : Nat) : StandsFor data (.literal line (.int n)) (.ofNat n)
  | negative {n : Nat} (line line' : Nat) (hn : n ≤ Numeric.twoTo 63) :
    StandsFor data (.unary line .negate (.literal line' (.int n))) (.ofInt (-n))
  | bool (line : Nat) (b : Bool) : StandsFor data (.literal line (.bool b)) (.bool b)
  | null (line : Nat) : StandsFor data (.literal line .none) .null
  | var {n : String} {v : Json.Value} (line : Nat) (h : data.member? n = some v) : StandsFor data (.var line n) v
  | attr {e : Expr} {n : String} {v w : Json.Value} (line : Nat) (h : StandsFor data e v) (hw : v.member? n = some w) :
    StandsFor data (.attr line e n) w
  | item {e : Expr} {vs : List Json.Value} {k : Nat} {w : Json.Value} (line line' : Nat)
    (h : StandsFor data e (.list vs)) (hk : k < Numeric.twoTo 63) (hw : vs[k]? = some w) :
    StandsFor data (.item line e (.literal line' (.int k))) w

/-- An expression that takes the steps of a path behind another one. -/
inductive Expr.Walks : Expr → List Step → Expr → Prop
  | nil (e : Expr) : Walks e [] e
  | member {e e' : Expr} {n : String} {ss : List Step} (line : Nat) (h : Walks (.attr line e n) ss e') :
    Walks e (.member n :: ss) e'
  | item {e e' : Expr} {k : Nat} {ss : List Step} (line line' : Nat)
    (h : Walks (.item line e (.literal line' (.int k))) ss e') : Walks e (.item k :: ss) e'

theorem Follows.steps (h : Follows v ts w) : ∃ ss : List Step, ts = ss.flatMap Step.tokens := by
  induction h with
  | nil v => exact ⟨[], rfl⟩
  | @member v u w n ts hu h ih =>
    obtain ⟨ss, rfl⟩ := ih
    exact ⟨.member n :: ss, rfl⟩
  | @item vs u w k ts hk hu h ih =>
    obtain ⟨ss, rfl⟩ := ih
    exact ⟨.item k :: ss, rfl⟩

/-- Where the steps of a path lead on some data, the expression that takes them stands. -/
theorem Expr.StandsFor.walks {e e' : Expr} {ss : List Step} (he : e.StandsFor data v) (hw : e.Walks ss e')
    (h : Follows v (ss.flatMap Step.tokens) w) : e'.StandsFor data w := by
  induction hw generalizing v with
  | nil e =>
    cases h
    exact he
  | member line hw ih =>
    cases h with
    | member hu h => exact ih (.attr line he hu) h
  | item line line' hw ih =>
    cases h with
    | item hk hu h => exact ih (.item line line' he hk hu) h

variable {α : Type} {V : Expr → α → Prop}

/-- An entry of a map whose key is a text. -/
def EntryFor (V : Expr → α → Prop) (q : String × α) (p : Expr × Expr) : Prop :=
  (∃ line, p.1 = .literal line (.text q.1)) ∧ V p.2 q.2

/-- A call of the function that makes placeholders, of a name and props. -/
def Expr.Calls (V : Expr → α → Prop) (name : String) (props : List (String × α)) (e : Expr) : Prop :=
  ∃ l l₁ l₂ l₃ es, e = .call l (.var l₁ placeholderFunction)
    [.positional (.literal l₂ (.text name)), .positional (.map l₃ es)] ∧ List.Forall₂ (EntryFor V) props es

namespace Parser

variable {expr plain prim : Parser Expr} {R : Expr → Prop}

/-! ### Primaries -/

theorem yields_string (s : String) :
    Yields (primary expr) [.string s] rest fun e => ∃ line, e = .literal line (.text s) := by
  refine Yields.look yields_nextLine fun line _ => Yields.last yields_next ?_
  rintro _ rfl
  exact yields_pure ⟨line, rfl⟩

theorem yields_int (n : Nat) : Yields (primary expr) [.int n] rest fun e => ∃ line, e = .literal line (.int n) := by
  refine Yields.look yields_nextLine fun line _ => Yields.last yields_next ?_
  rintro _ rfl
  exact yields_pure ⟨line, rfl⟩

theorem yields_float (x : Numeric.Double) :
    Yields (primary expr) [.float x] rest fun e => ∃ line, e = .literal line (.float x) := by
  refine Yields.look yields_nextLine fun line _ => Yields.last yields_next ?_
  rintro _ rfl
  exact yields_pure ⟨line, rfl⟩

theorem yields_var {n : String} (hkey : n ∉ keywords) :
    Yields (primary expr) [.name n] rest fun e => ∃ line, e = .var line n := by
  refine Yields.look yields_nextLine fun line _ => Yields.last yields_next ?_
  rintro _ rfl
  simp only [keywords, List.mem_cons, not_or] at hkey
  obtain ⟨-, h₁, h₂, h₃, h₄, h₅, h₆, -⟩ := hkey
  dsimp only
  split
  all_goals first | contradiction | exact yields_pure ⟨line, rfl⟩

theorem yields_bool (b : Bool) :
    Yields (primary expr) [.name (if b then "true" else "false")] rest fun e =>
      ∃ line, e = .literal line (.bool b) := by
  refine Yields.look yields_nextLine fun line _ => Yields.last yields_next ?_
  rintro _ rfl
  cases b <;> exact yields_pure ⟨line, rfl⟩

theorem yields_none : Yields (primary expr) [.name "none"] rest fun e => ∃ line, e = .literal line .none := by
  refine Yields.look yields_nextLine fun line _ => Yields.last yields_next ?_
  rintro _ rfl
  exact yields_pure ⟨line, rfl⟩

/-! ### Values -/

/-- A primary alone is an operand. -/
theorem yields_operand_primary (ht : t ∈ enders) (hne : (us ++ t :: rest).head? ≠ some (.symbol .minus))
    (h : Yields prim us (t :: rest) R) : Yields (operand expr plain prim) us (t :: rest) R := by
  rw [← List.append_nil us]
  refine yields_operand us [] (S := R) (fun fuel => yields_negated_none (by simpa using hne) h _) (by simp) ?_
  exact fun line e he => yields_suffixes_none ht he line _

theorem yields_index (ht : t ∈ enders) (n : Nat) (choice : Bool) (room : Nat) :
    Yields (expression choice (room + 2)) [.int n] (t :: rest) fun e => ∃ line, e = .literal line (.int n) :=
  yields_expression ht (by simp) (yields_operand_primary ht (by simp) (yields_int n)) choice

/-- The steps of a path behind its root. -/
theorem yields_steps (ht : t ∈ enders)
    (hexpr : ∀ k rest, Yields expr [.int k] (.symbol .bracketClose :: rest) fun e => ∃ line, e = .literal line (.int k))
    (line : Nat) (ss : List Step) (e : Expr) {fuel : Nat} (hfuel : (ss.flatMap Step.tokens).length ≤ fuel) :
    Yields (suffixes expr plain line fuel e) (ss.flatMap Step.tokens) (t :: rest) (e.Walks ss) := by
  induction ss generalizing e fuel with
  | nil => exact yields_suffixes_none ht (.nil e) line fuel
  | cons step ss ih =>
    cases step with
    | member n =>
      change (ss.flatMap Step.tokens).length + 1 + 1 ≤ fuel at hfuel
      obtain ⟨fuel, rfl⟩ : ∃ k, fuel = k + 1 := ⟨fuel - 1, by omega⟩
      change Yields _ (.symbol .dot :: .name n :: ss.flatMap Step.tokens) _ _
      refine Yields.look yields_peek ?_
      rintro _ rfl
      refine Yields.one yields_next fun _ _ => Yields.look yields_nextLine fun keyLine _ => Yields.one yields_next ?_
      rintro _ rfl
      exact (ih (.attr line e n) (by omega)).mono fun _ hw => .member line hw
    | item k =>
      change (ss.flatMap Step.tokens).length + 1 + 1 + 1 ≤ fuel at hfuel
      obtain ⟨fuel, rfl⟩ : ∃ k, fuel = k + 1 := ⟨fuel - 1, by omega⟩
      change Yields _ (.symbol .bracketOpen :: ([.int k, .symbol .bracketClose] ++ ss.flatMap Step.tokens)) _ _
      have hsubscript : Yields (subscript expr line e) [.int k, .symbol .bracketClose]
          (ss.flatMap Step.tokens ++ t :: rest) fun e' => ∃ line', e' = .item line e (.literal line' (.int k)) := by
        refine Yields.look (yields_isNext _) ?_
        rintro _ rfl
        dsimp only
        rw [if_neg (by simp)]
        refine Yields.one (hexpr k _) ?_
        rintro _ ⟨keyLine, rfl⟩
        rw [pure_bind]
        refine Yields.look (yields_skip_not (by simp)) ?_
        rintro _ rfl
        exact Yields.last (yields_expect _) fun _ _ => yields_pure ⟨keyLine, rfl⟩
      refine Yields.look yields_peek ?_
      rintro _ rfl
      refine Yields.one yields_next fun _ _ => Yields.bind hsubscript ?_
      rintro _ ⟨line', rfl⟩
      exact (ih (.item line e (.literal line' (.int k))) (by omega)).mono fun _ hw => .item line line' hw

/-- The words are read as one expression wherever an expression may end behind them. -/
def ReadsAs (ts : List Token) (R : Expr → Prop) : Prop :=
  ∀ t ∈ enders, ∀ rest choice room, Yields (expression choice (room + 3)) ts (t :: rest) R

theorem ReadsAs.mono {R' : Expr → Prop} (h : ReadsAs ts R) (himp : ∀ e, R e → R' e) : ReadsAs ts R' :=
  fun t ht rest choice room => (h t ht rest choice room).mono himp

/-- A primary that is read from one token is an expression. -/
theorem readsAs_primary (hminus : t ≠ .symbol .minus) (hnot : t ≠ .name "not")
    (h : ∀ rest, ∀ expr : Parser Expr, Yields (primary expr) [t] rest R) : ReadsAs [t] R :=
  fun _ hend _ choice _ => yields_expression hend (by simpa using hnot)
    (yields_operand_primary hend (by simpa using hminus) (h _ _)) choice

/-- A minus in front of a primary of one token. -/
theorem readsAs_negated {S : Expr → Prop} (hminus : t ≠ .symbol .minus)
    (h : ∀ rest, ∀ expr : Parser Expr, Yields (primary expr) [t] rest R)
    (himp : ∀ line e, R e → S (.unary line .negate e)) : ReadsAs [.symbol .minus, t] S := by
  intro end_ hend rest choice room
  refine yields_expression hend (by simp) ?_ choice
  exact yields_operand [.symbol .minus, t] [] (S := S)
    (fun fuel => yields_negated (by simpa using hminus) (h _ _) himp fuel) (by simp)
    fun line e he => yields_suffixes_none hend he line _

theorem readsAs_text (s : String) : ReadsAs [.string s] fun e => ∃ line, e = .literal line (.text s) :=
  readsAs_primary (t := .string s) nofun nofun fun _ _ => yields_string s

theorem readsAs_int (n : Nat) : ReadsAs [.int n] fun e => ∃ line, e = .literal line (.int n) :=
  readsAs_primary (t := .int n) nofun nofun fun _ _ => yields_int n

theorem readsAs_float (x : Numeric.Double) : ReadsAs [.float x] fun e => ∃ line, e = .literal line (.float x) :=
  readsAs_primary (t := .float x) nofun nofun fun _ _ => yields_float x

theorem readsAs_bool (b : Bool) :
    ReadsAs [.name (if b then "true" else "false")] fun e => ∃ line, e = .literal line (.bool b) :=
  readsAs_primary nofun (by cases b <;> simp) fun _ _ => yields_bool b

theorem readsAs_none : ReadsAs [.name "none"] fun e => ∃ line, e = .literal line .none :=
  readsAs_primary (t := .name "none") nofun (by simp) fun _ _ => yields_none

theorem readsAs_path {n : String} (hkey : n ∉ keywords) (ss : List Step) :
    ReadsAs (.name n :: ss.flatMap Step.tokens) fun e => ∃ line, (Expr.var line n).Walks ss e := by
  intro t ht rest choice room
  have hnot : n ≠ "not" := fun he => hkey (he ▸ List.mem_cons_self)
  refine yields_expression ht (by simpa using hnot) ?_ choice
  refine yields_operand [.name n] (ss.flatMap Step.tokens) (S := fun e => ∃ line, e = .var line n)
    (fun fuel => yields_negated_none (by simp) (yields_var hkey) _) (by simp) ?_
  rintro line _ ⟨line', rfl⟩
  exact (yields_steps ht (fun k rest => yields_index (by decide) k true room) line ss _ (by simp)).mono
    fun e he => ⟨line', he⟩

theorem readsAs_value (h : Utters data ts v) : ReadsAs ts (Expr.StandsFor data · v) := by
  cases h with
  | text s =>
    refine (readsAs_text s).mono ?_
    rintro _ ⟨line, rfl⟩
    exact .text line s
  | @integer n hn =>
    refine (readsAs_int n).mono ?_
    rintro _ ⟨line, rfl⟩
    exact .integer line n
  | @negative n hn =>
    refine readsAs_negated (t := .int n) nofun (fun _ _ => yields_int n) ?_
    rintro line _ ⟨line', rfl⟩
    exact .negative line line' hn
  | bool b =>
    refine (readsAs_bool b).mono ?_
    rintro _ ⟨line, rfl⟩
    exact .bool line b
  | null =>
    refine readsAs_none.mono ?_
    rintro _ ⟨line, rfl⟩
    exact .null line
  | @path n ts u v hkey hu h hv =>
    obtain ⟨ss, rfl⟩ := h.steps
    refine (readsAs_path hkey ss).mono ?_
    rintro e ⟨line, he⟩
    exact Expr.StandsFor.walks (.var line hu) he h

/-! ### Calls -/

/-- Props and the words that are read as them. -/
def SaidFor (V : Expr → α → Prop) (q : String × α) (w : String × List Token) : Prop :=
  w.1 = q.1 ∧ ReadsAs w.2 (V · q.2)

/-- The words that follow an entry: nothing, or a comma and more entries. -/
def moreTokens : List (String × List Token) → List Token
  | [] => []
  | p :: r => .symbol .comma :: propTokens (p :: r)

theorem propTokens_cons (p : String × List Token) (r : List (String × List Token)) :
    propTokens (p :: r) = .string p.1 :: .symbol .colon :: (p.2 ++ moreTokens r) := by
  cases r with
  | nil => rw [propTokens, moreTokens, List.append_nil]
  | cons q r => rfl

theorem yields_entry (ht : t ∈ enders) {key : String} {x : α} (h : ReadsAs ts (V · x)) (room : Nat) :
    Yields (mapEntry (expression true (room + 3))) (.string key :: .symbol .colon :: ts) (t :: rest)
      (EntryFor V (key, x)) := by
  refine Yields.one (readsAs_text key _ (by decide) _ true room) fun k hk => ?_
  refine Yields.one (yields_expect _) fun _ _ => Yields.last (h t ht rest true room) fun e he => ?_
  exact yields_pure ⟨hk, he⟩

variable {props : List (String × α)} {words : List (String × List Token)}

theorem moreTokens_head (words : List (String × List Token)) (rest : List Token) :
    ∃ t r, moreTokens words ++ .symbol .braceClose :: rest = t :: r ∧ t ∈ enders := by
  cases words with
  | nil => exact ⟨_, _, rfl, by decide⟩
  | cons p r => exact ⟨_, _, rfl, by decide⟩

/-- An entry and those behind it. -/
theorem yields_entry_more (key : String) {x : α} (h : ReadsAs ts (V · x)) {room fuel : Nat}
    (hmore : Yields (listUntil.go .braceClose (mapEntry (expression true (room + 3))) fuel false)
      (moreTokens words ++ [.symbol .braceClose]) rest (List.Forall₂ (EntryFor V) props)) :
    Yields (mapEntry (expression true (room + 3)) >>= fun x =>
        listUntil.go .braceClose (mapEntry (expression true (room + 3))) fuel false >>= fun r => pure (x :: r))
      (propTokens ((key, ts) :: words) ++ [.symbol .braceClose]) rest
        (List.Forall₂ (EntryFor V) ((key, x) :: props)) := by
  obtain ⟨t, r, hhead, ht⟩ := moreTokens_head words rest
  have hentry : Yields (mapEntry (expression true (room + 3))) (.string key :: .symbol .colon :: ts)
      (moreTokens words ++ [.symbol .braceClose] ++ rest) (EntryFor V (key, x)) := by
    rw [List.append_assoc, List.singleton_append, hhead]
    exact yields_entry ht h room
  have hwords : propTokens ((key, ts) :: words) ++ [.symbol .braceClose] =
      (.string key :: .symbol .colon :: ts) ++ (moreTokens words ++ [.symbol .braceClose]) := by
    rw [propTokens_cons]
    simp
  rw [hwords]
  exact Yields.bind hentry fun x hx => Yields.last hmore fun r hr => yields_pure (.cons hx hr)

theorem yields_entries (h : List.Forall₂ (SaidFor V) props words) (room : Nat) {fuel : Nat}
    (hfuel : words.length < fuel) :
    Yields (listUntil.go .braceClose (mapEntry (expression true (room + 3))) fuel false)
      (moreTokens words ++ [.symbol .braceClose]) rest (List.Forall₂ (EntryFor V) props) := by
  induction h generalizing fuel with
  | nil =>
    obtain ⟨fuel, rfl⟩ : ∃ k, fuel = k + 1 := ⟨fuel - 1, by omega⟩
    refine Yields.one yields_skip ?_
    rintro _ rfl
    exact yields_pure .nil
  | @cons q p props words hqp hrest ih =>
    obtain ⟨key, v⟩ := q
    obtain ⟨key', ts⟩ := p
    obtain ⟨hkey, hts⟩ := hqp
    obtain rfl : key' = key := hkey
    obtain ⟨fuel, rfl⟩ : ∃ k, fuel = k + 1 := ⟨fuel - 1, by omega⟩
    have hmore := yields_entry_more key' hts (ih (Nat.lt_of_succ_lt_succ hfuel))
    have hstring : (propTokens ((key', ts) :: words) ++ [Token.symbol .braceClose] ++ rest).head? ≠
        some (Token.symbol .braceClose) := by
      rw [propTokens_cons]
      simp
    rw [moreTokens]
    refine Yields.look (yields_skip_not (by simp)) ?_
    rintro _ rfl
    refine Yields.one (yields_expect _) fun _ _ => Yields.look (yields_skip_not hstring) ?_
    rintro _ rfl
    exact hmore

theorem length_le_propTokens (words : List (String × List Token)) : words.length ≤ (propTokens words).length := by
  induction words with
  | nil => exact Nat.le_refl 0
  | cons p r ih =>
    rw [propTokens_cons]
    have hmore : (propTokens r).length ≤ (moreTokens r).length := by
      cases r with
      | nil => exact Nat.le_refl 0
      | cons q r => exact Nat.le_succ _
    simp only [List.length_cons, List.length_append]
    omega

/-- A map of entries. -/
theorem yields_map (h : List.Forall₂ (SaidFor V) props words) (room : Nat) :
    Yields (primary (expression true (room + 3)))
      (.symbol .braceOpen :: (propTokens words ++ [.symbol .braceClose])) rest fun e =>
        ∃ line es, e = .map line es ∧ List.Forall₂ (EntryFor V) props es := by
  refine Yields.look yields_nextLine fun line _ => Yields.one yields_next ?_
  rintro _ rfl
  refine Yields.last (P := List.Forall₂ (EntryFor V) props) (Yields.look yields_tokensLeft ?_) ?_
  · rintro _ rfl
    cases h with
    | nil =>
      refine Yields.one yields_skip ?_
      rintro _ rfl
      exact yields_pure .nil
    | @cons q p props words hqp hrest =>
      obtain ⟨key, v⟩ := q
      obtain ⟨key', ts⟩ := p
      obtain ⟨hkey, hts⟩ := hqp
      obtain rfl : key' = key := hkey
      have hstring : (propTokens ((key', ts) :: words) ++ [Token.symbol .braceClose] ++ rest).head? ≠
          some (Token.symbol .braceClose) := by
        rw [propTokens_cons]
        simp
      refine Yields.look (yields_skip_not hstring) ?_
      rintro _ rfl
      refine yields_entry_more key' hts (yields_entries hrest room ?_)
      have hlen := length_le_propTokens ((key', ts) :: words)
      rw [List.length_cons] at hlen
      simp only [List.length_append]
      omega
  · exact fun es hes => yields_pure ⟨line, es, rfl, hes⟩

/-- An argument that is no name. -/
theorem yields_argument (plain : Parser Expr) {fn : Expr → Prop} (hfn : ∀ e, fn e → ∀ line n, e ≠ .var line n)
    (hpower : (ts ++ rest).head? ≠ some (.symbol .power)) (htimes : (ts ++ rest).head? ≠ some (.symbol .times))
    (h : Yields expr ts rest fn) :
    Yields (argument expr plain false) ts rest fun a => ∃ e, a = .positional e ∧ fn e := by
  refine Yields.look (yields_skip_not hpower) ?_
  rintro _ rfl
  refine Yields.look (yields_skip_not htimes) ?_
  rintro _ rfl
  refine Yields.last h fun e he => ?_
  cases e with
  | var line n => exact absurd rfl (hfn _ he line n)
  | _ => exact yields_pure ⟨_, rfl, he⟩

theorem yields_mapArgument (h : List.Forall₂ (SaidFor V) props words) (ht : t ∈ enders) (rest : List Token)
    (choice : Bool) (room : Nat) : Yields (expression choice (room + 5))
      (.symbol .braceOpen :: (propTokens words ++ [.symbol .braceClose])) (t :: rest)
      fun e => ∃ line es, e = .map line es ∧ List.Forall₂ (EntryFor V) props es :=
  yields_expression ht (by simp) (yields_operand_primary ht (by simp) (yields_map h room)) choice

theorem yields_arguments (h : List.Forall₂ (SaidFor V) props words) (name : String) (room : Nat) :
    Yields (arguments (expression true (room + 5)) plain) (callTokens name words).tail rest fun args =>
      ∃ l₂ l₃ es, args = [.positional (.literal l₂ (.text name)), .positional (.map l₃ es)] ∧
        List.Forall₂ (EntryFor V) props es := by
  refine Yields.one (yields_expect _) fun _ _ => Yields.look yields_tokensLeft ?_
  rintro _ rfl
  obtain ⟨n, hn⟩ : ∃ n, (Token.string name :: Token.symbol .comma :: Token.symbol .braceOpen ::
      (propTokens words ++ [Token.symbol .braceClose, Token.symbol .parenClose]) ++ rest).length + 1 = n + 3 :=
    ⟨(propTokens words).length + rest.length + 3, by simp; omega⟩
  rw [hn]
  have hend : Yields (arguments.go (expression true (room + 5)) plain (n + 1) false false) [.symbol .parenClose] rest
      (· = []) := by
    refine Yields.one yields_skip ?_
    rintro _ rfl
    exact yields_pure rfl
  have hprops : Yields (arguments.go (expression true (room + 5)) plain (n + 2) false false)
      (.symbol .comma :: (.symbol .braceOpen :: (propTokens words ++ [.symbol .braceClose]) ++
        [.symbol .parenClose])) rest fun args =>
          ∃ line es, args = [.positional (.map line es)] ∧ List.Forall₂ (EntryFor V) props es := by
    refine Yields.look (yields_skip_not (by simp)) ?_
    rintro _ rfl
    refine Yields.one (yields_expect _) fun _ _ => Yields.look (yields_skip_not (by simp)) ?_
    rintro _ rfl
    have hmap := yields_mapArgument h (t := .symbol .parenClose) (by decide) rest true room
    refine Yields.bind (yields_argument plain ?_ (by simp) (by simp) hmap) ?_
    · rintro _ ⟨line, es, rfl, -⟩ line' n ⟨⟩
    · rintro _ ⟨_, rfl, line, es, rfl, hes⟩
      refine Yields.last hend ?_
      rintro _ rfl
      exact yields_pure ⟨line, es, rfl, hes⟩
  have hwords : (Token.symbol .comma :: Token.symbol .braceOpen ::
      (propTokens words ++ [Token.symbol .braceClose, Token.symbol .parenClose])) = .symbol .comma ::
        (.symbol .braceOpen :: (propTokens words ++ [.symbol .braceClose]) ++ [.symbol .parenClose]) := by
    simp
  rw [hwords]
  refine Yields.look (yields_skip_not (by simp)) ?_
  rintro _ rfl
  have hname : Yields (expression true (room + 5)) [.string name] (.symbol .comma :: (.symbol .braceOpen ::
      (propTokens words ++ [.symbol .braceClose]) ++ [.symbol .parenClose] ++ rest)) fun e =>
        ∃ line, e = .literal line (.text name) :=
    readsAs_text name _ (by decide) _ true (room + 2)
  refine Yields.one (yields_argument plain ?_ (by simp) (by simp) hname) ?_
  · rintro _ ⟨line, rfl⟩ line' n ⟨⟩
  · rintro _ ⟨_, rfl, line, rfl⟩
    refine Yields.last hprops ?_
    rintro _ ⟨line', es, rfl, hes⟩
    exact yields_pure ⟨line, line', es, rfl, hes⟩

/-- The call of a component. -/
theorem yields_call (h : List.Forall₂ (SaidFor V) props words) (ht : t ∈ enders) (rest : List Token) (name : String)
    (choice : Bool) (room : Nat) :
    Yields (expression choice (room + 6)) (callTokens name words) (t :: rest) (Expr.Calls V name props) := by
  have hkey : placeholderFunction ∉ keywords := by decide
  refine yields_expression ht (by simp [callTokens, placeholderFunction]) ?_ choice
  refine yields_operand [.name placeholderFunction] (callTokens name words).tail
    (fun fuel => yields_negated_none (by simp) (yields_var hkey) _) (by simp) ?_
  rintro line _ ⟨line', rfl⟩
  rw [callTokens, List.tail_cons, List.cons_append, List.length_cons]
  refine Yields.look yields_peek ?_
  rintro _ rfl
  refine Yields.last (yields_arguments h name room) ?_
  rintro _ ⟨l₂, l₃, es, rfl, hes⟩
  exact yields_suffixes_none ht ⟨line, line', l₂, l₃, es, rfl, hes⟩ line _

end Parser

/-! ### Text and calls -/

/-- The statement of a text, unless the text is empty. -/
def textStmts (text : List Char) : List Stmt :=
  if text.isEmpty then [] else [.text (String.ofList text)]

/-- Texts, and calls with a name and props each. -/
inductive StmtsFor (V : Expr → α → Prop) :
    List Char → List ((String × List (String × α)) × List Char) → List Stmt → Prop
  | nil (head : List Char) : StmtsFor V head [] (textStmts head)
  | cons {head text : List Char} {name : String} {props : List (String × α)} {e : Expr} {ss : List Stmt}
    {cs : List ((String × List (String × α)) × List Char)} (he : e.Calls V name props)
    (h : StmtsFor V text cs ss) : StmtsFor V head (((name, props), text) :: cs) (textStmts head ++ .emit e :: ss)

theorem StmtsFor.map {β : Type} {V' : Expr → β → Prop} (g : α → β) {head : List Char}
    {cs : List ((String × List (String × α)) × List Char)} {ss : List Stmt} (h : StmtsFor V head cs ss)
    (himp : ∀ c ∈ cs, ∀ q ∈ c.1.2, ∀ e, V e q.2 → V' e (g q.2)) :
    StmtsFor V' head (cs.map fun c => ((c.1.1, c.1.2.map fun q => (q.1, g q.2)), c.2)) ss := by
  induction h with
  | nil head => exact .nil head
  | @cons head text name props e ss cs he h ih =>
    obtain ⟨hfirst, hrest⟩ := List.forall_mem_cons.1 himp
    obtain ⟨l, l₁, l₂, l₃, es, rfl, hes⟩ := he
    have hentries : List.Forall₂ (EntryFor V') (props.map fun q => (q.1, g q.2)) es := by
      clear h ih hrest himp
      induction hes with
      | nil => exact .nil
      | cons hqp hes ih =>
        obtain ⟨hq, hprops⟩ := List.forall_mem_cons.1 hfirst
        exact .cons ⟨hqp.1, hq _ hqp.2⟩ (ih hprops)
    exact .cons ⟨l, l₁, l₂, l₃, es, rfl, hentries⟩ (ih hrest)

theorem StmtsFor.imp {V' : Expr → α → Prop} {head : List Char}
    {cs : List ((String × List (String × α)) × List Char)} {ss : List Stmt} (h : StmtsFor V head cs ss)
    (himp : ∀ c ∈ cs, ∀ q ∈ c.1.2, ∀ e, V e q.2 → V' e q.2) : StmtsFor V' head cs ss := by
  have hmap := h.map id himp
  simpa using hmap

/-- The words of a call with a name and props, and the text behind it. -/
def CallFor (V : Expr → α → Prop) (c : (String × List (String × α)) × List Char) (q : List Token × List Char) : Prop :=
  (∃ words, q.1 = callTokens c.1.1 words ∧ List.Forall₂ (Parser.SaidFor V) c.1.2 words) ∧ q.2 = c.2

namespace Parser

variable {stmt expr : Parser Expr} {head : List Char} {cs : List ((String × List (String × α)) × List Char)}
  {qs : List (List Token × List Char)}

theorem yields_next_none : Yields next [] [] (· = none) := by
  intro s hfault htokens
  have hrest : s.rest = [] := List.map_eq_nil_iff.1 htokens
  have hpeek : peek s = .ok (none, s) := by
    unfold peek
    rw [hrest]
    dsimp only
    rw [hfault]
  have hmodify : ∀ g : ParserState → ParserState, (modify g : Parser PUnit) s = .ok ((), g s) := fun _ => rfl
  refine ⟨none, s, bind_ok.2 ⟨none, s, hpeek, bind_ok.2 ⟨(), _, hmodify _, ?_⟩⟩, hfault, htokens, rfl⟩
  rw [hrest]
  rfl

/-- A text comes first, if there is one. -/
theorem yields_text_first {stmt : Parser Stmt} {expr : Parser Expr} {P : List Stmt → Prop} (text : List Char)
    (h : ∀ fuel, ts.length < fuel → Yields (bodyUntil stmt expr [] fuel) ts rest fun ss => P (textStmts text ++ ss))
    {fuel : Nat} (hfuel : (textTokens text ++ ts).length < fuel) :
    Yields (bodyUntil stmt expr [] fuel) (textTokens text ++ ts) rest P := by
  unfold textTokens textStmts at *
  split
  · next hempty =>
    rw [if_pos hempty] at h hfuel
    exact h fuel hfuel
  · next hne =>
    rw [if_neg hne] at h hfuel
    obtain ⟨fuel, rfl⟩ : ∃ k, fuel = k + 1 := ⟨fuel - 1, by omega⟩
    rw [List.length_append, List.length_singleton] at hfuel
    refine Yields.one yields_next ?_
    rintro _ rfl
    exact Yields.last (h fuel (by omega)) fun ss hss => yields_pure hss

theorem yields_body {stmt : Parser Stmt} (h : List.Forall₂ (CallFor V) cs qs) (head : List Char) (room : Nat)
    {fuel : Nat} (hfuel : (inlineTokens head qs).length < fuel) :
    Yields (bodyUntil stmt (expression true (room + 6)) [] fuel) (inlineTokens head qs) [] (StmtsFor V head cs) := by
  induction h generalizing head fuel with
  | nil =>
    rw [inlineTokens, ← List.append_nil (textTokens head)] at hfuel ⊢
    refine yields_text_first head (fun fuel hfuel => ?_) hfuel
    obtain ⟨fuel, rfl⟩ : ∃ k, fuel = k + 1 := ⟨fuel - 1, by omega⟩
    refine Yields.look yields_next_none ?_
    rintro _ rfl
    exact yields_pure (by rw [List.append_nil]; exact .nil head)
  | @cons c q cs qs hcq hrest ih =>
    obtain ⟨⟨name, props⟩, text⟩ := c
    obtain ⟨ws, text'⟩ := q
    obtain ⟨⟨words, hws, hwords⟩, htext⟩ := hcq
    obtain rfl : ws = callTokens name words := hws
    obtain rfl : text' = text := htext
    rw [inlineTokens] at hfuel ⊢
    refine yields_text_first head (fun fuel hfuel => ?_) hfuel
    obtain ⟨fuel, rfl⟩ : ∃ k, fuel = k + 1 := ⟨fuel - 1, by omega⟩
    refine Yields.one yields_next ?_
    rintro _ rfl
    have hcall := yields_call hwords (t := .exprEnd) (by decide) (inlineTokens text' qs ++ []) name true room
    refine Yields.bind hcall fun e he => Yields.one (yields_expect _) fun _ _ =>
      Yields.last (ih text' ?_) fun ss hss => ?_
    · simp only [List.length_cons, List.length_append] at hfuel
      omega
    · exact yields_pure (.cons he hss)

end Parser

/-- Texts and calls are read from their tokens. -/
theorem parse_inline {space : BlockSpace} {source head : List Char}
    {cs : List ((String × List (String × α)) × List Char)} {qs : List (List Token × List Char)}
    (htokens : (tokenize space source).tokens.map Spanned.token = inlineTokens head qs)
    (hfault : (tokenize space source).fault = none) (h : List.Forall₂ (CallFor V) cs qs) (name : String) :
    ∃ ss, parse space name source = .ok ss ∧ StmtsFor V head cs ss := by
  have hparse : Parser.Yields Parser.template (inlineTokens head qs) [] (StmtsFor V head cs) := by
    refine Parser.Yields.look Parser.yields_tokensLeft ?_
    rintro _ rfl
    exact Parser.yields_body h head 144 (by simp)
  obtain ⟨ss, s', hss, -, -, hall⟩ := hparse
    { rest := (tokenize space source).tokens, fault := (tokenize space source).fault } hfault
    (by rw [List.append_nil]; exact htokens)
  refine ⟨ss, ?_, hall⟩
  rw [parse, hss]

end SecureLayout.Template
