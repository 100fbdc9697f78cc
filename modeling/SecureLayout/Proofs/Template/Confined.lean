import SecureLayout.Proofs.Policy.Context
import SecureLayout.Proofs.Template.Agreement
import SecureLayout.Proofs.Template.Parsed
import SecureLayout.Proofs.Template.Reread
import SecureLayout.Proofs.Text.Splitting

/-!
What stands in the place of a directive. Main statement: it is markup without braces, or one expression and nothing
beside it, a call of the function that makes placeholders with an allowed name and a map of constants and permitted
paths, `replacement_confined`.
-/

namespace SecureLayout.Template

open Directive Lexer

variable {α : Type} {p : SecurityPolicy} {path pre : List Char} {n : String} {ss : List Step} {bound : Nat}

/-! ### Integers in a directive -/

/-- The positions in a path are less than the bound. -/
def PositionsBelow (bound : Nat) (path : List Char) : Prop :=
  ∀ before digits after, path = before ++ '[' :: (digits ++ ']' :: after) → isDigits digits = true →
    decimal digits < bound

/-- The integers in a value, with a sign or as positions, are less than the bound. -/
def PropSource.IntegersBelow (bound : Nat) : PropSource → Prop
  | .literal source => ∀ digits, source = digits ∨ source = '-' :: digits → isDigits digits = true →
      decimal digits < bound
  | .binding path => PositionsBelow bound path

theorem PositionsBelow.of_append {a b : List Char} (h : PositionsBelow bound (a ++ b)) :
    PositionsBelow bound a ∧ PositionsBelow bound b := by
  constructor
  · rintro before digits after rfl hdigits
    exact h before digits (after ++ b) (by simp) hdigits
  · rintro before digits after rfl hdigits
    exact h (a ++ before) digits after (by simp) hdigits

/-! ### Paths -/

theorem Route.indices (h : Route pre n ss) {fuel : Nat} {cs : List Char} (hcs : areIndices fuel cs = true)
    (hbound : PositionsBelow integerLimit cs) : ∃ more, Route (pre ++ cs) n (ss ++ more) := by
  induction fuel generalizing cs pre ss with
  | zero =>
    cases cs with
    | nil => exact ⟨[], by simpa using h⟩
    | cons c cs => cases hcs
  | succ fuel ih =>
    unfold areIndices at hcs
    split at hcs
    · exact ⟨[], by simpa using h⟩
    · cases ‹_ = _›
    · next heq =>
      cases heq
      split at hcs
      · next digits rest hsplit =>
        obtain rfl := splitAt?_eq_some hsplit
        rw [Bool.and_eq_true] at hcs
        have hitem := h.item hcs.1 (hbound [] digits rest rfl hcs.1)
        have hrest : PositionsBelow integerLimit rest := by
          have hsource : '[' :: (digits ++ ']' :: rest) = '[' :: (digits ++ [']']) ++ rest := by simp
          rw [hsource] at hbound
          exact hbound.of_append.2
        obtain ⟨more, hmore⟩ := ih hitem hcs.2 hrest
        exact ⟨.item (decimal digits) :: more, by simpa using hmore⟩
      · cases hcs
    · cases hcs

/-- A step of a path is a name with indices behind it. -/
theorem isPathStep_split {step : List Char} (h : isPathStep step = true) : ∃ (m : String) (rest : List Char),
    step = m.toList ++ rest ∧ Text.isIdentifier m = true ∧ ∃ fuel, areIndices fuel rest = true := by
  cases step with
  | nil => cases h
  | cons c r =>
    simp only [isPathStep, Bool.and_eq_true] at h
    refine ⟨String.ofList (c :: r.takeWhile Text.isNamePart), r.dropWhile Text.isNamePart, ?_, ?_, _, h.2⟩
    · rw [String.toList_ofList, List.cons_append, List.takeWhile_append_dropWhile]
    · rw [Text.isIdentifier, String.toList_ofList]
      dsimp only
      rw [h.1, List.all_takeWhile]
      rfl

theorem Route.steps (h : Route pre n ss) {ps : List (List Char)} (hps : ∀ q ∈ ps, isPathStep q = true)
    (hbound : PositionsBelow integerLimit (ps.flatMap ('.' :: ·))) :
    ∃ more, Route (pre ++ ps.flatMap ('.' :: ·)) n (ss ++ more) := by
  induction ps generalizing pre ss with
  | nil => exact ⟨[], by simpa using h⟩
  | cons q ps ih =>
    have hrest := fun q hq => hps q (List.mem_cons_of_mem _ hq)
    obtain ⟨m, indices, rfl, hm, fuel, hindices⟩ := isPathStep_split (hps q List.mem_cons_self)
    rw [List.flatMap_cons] at hbound
    obtain ⟨hfirst, hmore⟩ := hbound.of_append
    have hbelow : PositionsBelow integerLimit indices := (PositionsBelow.of_append (a := '.' :: m.toList) hfirst).2
    obtain ⟨items, hitems⟩ := (h.member hm).indices hindices hbelow
    obtain ⟨more, hall⟩ := ih hitems hrest hmore
    exact ⟨.member m :: (items ++ more), by simpa using hall⟩

/-- What is accepted as a path is one, if its positions are integers. -/
theorem isBindingPath_route (h : isBindingPath path = true) (hbound : PositionsBelow integerLimit path) :
    ∃ n ss, Route path n ss := by
  obtain ⟨q, ps, hsplit, rfl⟩ := Text.splitOnChar_join '.' path
  rw [isBindingPath, hsplit, List.all_cons, Bool.and_eq_true, List.all_eq_true] at h
  obtain ⟨hfirst, hrest⟩ := hbound.of_append
  obtain ⟨n, rest, rfl, hn, fuel, hindices⟩ := isPathStep_split h.1
  obtain ⟨items, hitems⟩ := (Route.root hn).indices hindices hfirst.of_append.2
  obtain ⟨more, hall⟩ := hitems.steps h.2 hrest
  exact ⟨n, _, hall⟩

theorem Route.isIdentifier (h : Route path n ss) : Text.isIdentifier n = true := by
  induction h with
  | root hn => exact hn
  | member h hm ih => exact ih
  | item h hdigits hlimit ih => exact ih

/-- Behind the root of a path a step begins, if there is one. -/
theorem Route.root_prefix (h : Route path n ss) :
    ∃ rest, path = n.toList ++ rest ∧ ∀ c r, rest = c :: r → c = '.' ∨ c = '[' := by
  have hstep : ∀ {rest tail : List Char} {a : Char}, (a = '.' ∨ a = '[') →
      (∀ c r, rest = c :: r → c = '.' ∨ c = '[') → ∀ c r, rest ++ a :: tail = c :: r → c = '.' ∨ c = '[' := by
    intro rest tail a ha hrest c r heq
    cases rest with
    | nil =>
      obtain ⟨rfl, -⟩ := List.cons.inj heq
      exact ha
    | cons x rest =>
      obtain ⟨rfl, -⟩ := List.cons.inj heq
      exact hrest x rest rfl
  induction h with
  | root hn => exact ⟨[], (List.append_nil _).symm, nofun⟩
  | member h hm ih =>
    obtain ⟨rest, rfl, hrest⟩ := ih
    exact ⟨_, List.append_assoc .., hstep (.inl rfl) hrest⟩
  | item h hdigits hlimit ih =>
    obtain ⟨rest, rfl, hrest⟩ := ih
    exact ⟨_, List.append_assoc .., hstep (.inr rfl) hrest⟩

/-- The root of a permitted path is allowed: what is allowed are identifiers, so no position stands beside it. -/
theorem Route.root_mem {s : Policy.Settings} (hp : SecurityPolicy.compile s = .ok p) (h : Route path n ss)
    (hpermitted : p.validateExpression (String.ofList path) = true) : n ∈ s.expressionAllowlist := by
  obtain ⟨hvalid, hroots, -, -⟩ := SecurityPolicy.compile_ok hp
  rw [SecurityPolicy.validateExpression_eq, Bool.and_eq_true, hroots,
    Policy.RootAllowlist.contains_compile] at hpermitted
  have hmem := hpermitted.1
  have hroot := SecurityPolicy.isIdentifier_of_validate hvalid hmem
  obtain ⟨rest, rfl, hrest⟩ := h.root_prefix
  have hname := isIdentifier_quiet h.isIdentifier
  have hdot : ∀ c ∈ n.toList, (c != '.') = true := fun c hc => bne_iff_ne.2 fun he => by
    have hpart := hname c hc
    rw [he] at hpart
    cases hpart
  rw [Expression.root, String.toList_ofList, List.takeWhile_append_of_pos hdot] at hroot hmem
  cases rest with
  | nil => simpa using hmem
  | cons c r =>
    rcases hrest c r rfl with rfl | rfl
    · simpa using hmem
    · have hpart := isIdentifier_quiet hroot '[' (by simp)
      cases hpart

/-- The words of steps say which they are. -/
theorem tokens_injective {ss' : List Step} (h : ss.flatMap Step.tokens = ss'.flatMap Step.tokens) : ss = ss' := by
  induction ss generalizing ss' with
  | nil =>
    cases ss' with
    | nil => rfl
    | cons s' ss' => cases s' <;> cases h
  | cons s ss ih =>
    cases ss' with
    | nil => cases s <;> cases h
    | cons s' ss' =>
      cases s <;> cases s'
      all_goals
        simp only [List.flatMap_cons, Step.tokens, List.cons_append, List.nil_append, List.cons.injEq, Token.name.injEq,
          Token.int.injEq, Token.symbol.injEq, reduceCtorEq, false_and, true_and] at h
      all_goals
        obtain ⟨rfl, hrest⟩ := h
        rw [ih hrest]

/-- A path is read in one way. -/
theorem Route.unique {n' : String} {ss' : List Step} (h : Route path n ss) (h' : Route path n' ss') :
    n = n' ∧ ss = ss' := by
  have hends : EndsName (')' :: '\x7d' :: '\x7d' :: []) := (endsWord_cons ⟨rfl, by decide⟩).endsName
  have hclose : Coded .expr 1 (')' :: '\x7d' :: '\x7d' :: []) [.symbol .parenClose] .none [] :=
    .symbol (d := 0) rfl (.close rfl)
  have hsame := (h.spoken 0 _ _ _ _ hends hclose).unique (h'.spoken 0 _ _ _ _ hends hclose)
  obtain ⟨hname, hsteps⟩ := List.cons.inj (List.append_cancel_right hsame)
  exact ⟨Token.name.inj hname, tokens_injective hsteps⟩

/-! ### Values -/

/-- What the value of a prop is read as: a constant, with a minus in front of it or none, or the steps of a permitted
path from its root on. -/
inductive Expr.IsValue (p : SecurityPolicy) : Expr → PropSource → Prop
  | text (line : Nat) (t : String) : IsValue p (.literal line (.text t)) (.literal (Json.renderText t.toList))
  | integer (line : Nat) {digits : List Char} (hdigits : isDigits digits = true) :
    IsValue p (.literal line (.int (decimal digits))) (.literal digits)
  | negative (line line' : Nat) {digits : List Char} (hdigits : isDigits digits = true) :
    IsValue p (.unary line .negate (.literal line' (.int (decimal digits)))) (.literal ('-' :: digits))
  | point (line : Nat) {whole fraction : List Char} (hwhole : isDigits whole = true)
    (hfraction : isDigits fraction = true) :
    IsValue p (.literal line (.float (decimalPoint whole fraction))) (.literal (whole ++ '.' :: fraction))
  | negativePoint (line line' : Nat) {whole fraction : List Char} (hwhole : isDigits whole = true)
    (hfraction : isDigits fraction = true) :
    IsValue p (.unary line .negate (.literal line' (.float (decimalPoint whole fraction))))
      (.literal ('-' :: (whole ++ '.' :: fraction)))
  | bool (line : Nat) (b : Bool) :
    IsValue p (.literal line (.bool b)) (.literal (if b then "true" else "false").toList)
  | none (line : Nat) : IsValue p (.literal line .none) (.literal "none".toList)
  | path (line : Nat) {e : Expr} {path : List Char} {n : String} {ss : List Step} (hroute : Route path n ss)
    (hpermitted : p.validateExpression (String.ofList path) = true) (he : (Expr.var line n).Walks ss e) :
    IsValue p e (.binding path)

/-- What the value of a prop may be: a constant, or the steps of a path from its root on. -/
inductive PropForm where
  | text (t : String)
  | integer (n : Nat)
  | negative (n : Nat)
  | point (x : Numeric.Double)
  | negativePoint (x : Numeric.Double)
  | bool (b : Bool)
  | none
  | path (n : String) (ss : List Step)

/-- The source of a value that has a form. -/
inductive PropSource.Has : PropSource → PropForm → Prop
  | text (t : String) : Has (.literal (Json.renderText t.toList)) (.text t)
  | integer {digits : List Char} (hdigits : isDigits digits = true) (hlimit : decimal digits < integerLimit) :
    Has (.literal digits) (.integer (decimal digits))
  | negative {digits : List Char} (hdigits : isDigits digits = true) (hlimit : decimal digits < integerLimit) :
    Has (.literal ('-' :: digits)) (.negative (decimal digits))
  | point {whole fraction : List Char} (hwhole : isDigits whole = true) (hfraction : isDigits fraction = true) :
    Has (.literal (whole ++ '.' :: fraction)) (.point (decimalPoint whole fraction))
  | negativePoint {whole fraction : List Char} (hwhole : isDigits whole = true) (hfraction : isDigits fraction = true) :
    Has (.literal ('-' :: (whole ++ '.' :: fraction))) (.negativePoint (decimalPoint whole fraction))
  | bool (b : Bool) : Has (.literal (if b then "true" else "false").toList) (.bool b)
  | none : Has (.literal "none".toList) .none
  | path {path : List Char} {n : String} {ss : List Step} (hroute : Route path n ss) : Has (.binding path) (.path n ss)

/-- Under the same key a form that the source has. -/
structure FormFor (q : String × PropSource) (f : String × PropForm) : Prop where
  key : f.1 = q.1
  has : q.2.Has f.2

/-- What a form is read as. -/
inductive Expr.IsForm : Expr → PropForm → Prop
  | text (line : Nat) (t : String) : IsForm (.literal line (.text t)) (.text t)
  | integer (line n : Nat) : IsForm (.literal line (.int n)) (.integer n)
  | negative (line line' n : Nat) : IsForm (.unary line .negate (.literal line' (.int n))) (.negative n)
  | point (line : Nat) (x : Numeric.Double) : IsForm (.literal line (.float x)) (.point x)
  | negativePoint (line line' : Nat) (x : Numeric.Double) :
    IsForm (.unary line .negate (.literal line' (.float x))) (.negativePoint x)
  | bool (line : Nat) (b : Bool) : IsForm (.literal line (.bool b)) (.bool b)
  | none (line : Nat) : IsForm (.literal line .none) .none
  | path (line : Nat) {e : Expr} {n : String} {ss : List Step} (he : (Expr.var line n).Walks ss e) :
    IsForm e (.path n ss)

variable {src : PropSource} {f : PropForm}

/-- A value that is accepted in a directive has a form. -/
theorem propSource_has {value : List Char} (h : propSource value = .ok src)
    (hbound : src.IntegersBelow integerLimit) : ∃ f, src.Has f := by
  rcases propSource_cases h with ⟨text, rfl⟩ | ⟨rfl, hnumber⟩ | ⟨w, hw, rfl⟩ | ⟨rfl, hpath⟩
  · have htext := PropSource.Has.text (String.ofList text)
    rw [String.toList_ofList] at htext
    exact ⟨_, htext⟩
  · obtain ⟨digits, hsign, hdigits | ⟨whole, fraction, rfl, hwhole, hfraction⟩⟩ := isNumber_cases hnumber
    · have hlimit := hbound digits hsign hdigits
      rcases hsign with rfl | rfl
      · exact ⟨_, .integer hdigits hlimit⟩
      · exact ⟨_, .negative hdigits hlimit⟩
    · rcases hsign with rfl | rfl
      · exact ⟨_, .point hwhole hfraction⟩
      · exact ⟨_, .negativePoint hwhole hfraction⟩
  · simp only [List.mem_cons, List.not_mem_nil, or_false] at hw
    rcases hw with rfl | rfl | rfl
    · exact ⟨_, .bool true⟩
    · exact ⟨_, .bool false⟩
    · exact ⟨_, .none⟩
  · obtain ⟨n, ss, hroute⟩ := isBindingPath_route hpath hbound
    exact ⟨_, .path hroute⟩

/-- The text of a value is read as what it has the form of. -/
theorem PropSource.Has.said (h : src.Has f) (hroot : ∀ n ss, f = .path n ss → n ∉ keywords) :
    ∃ ts, Spoken EndsWord src.text ts ∧ Parser.ReadsAs ts (Expr.IsForm · f) := by
  cases h with
  | text t =>
    refine ⟨_, renderText_spoken t, (Parser.readsAs_text t).mono ?_⟩
    rintro _ ⟨line, rfl⟩
    exact .text line t
  | integer hdigits hlimit =>
    refine ⟨_, integer_spoken hdigits hlimit, (Parser.readsAs_int _).mono ?_⟩
    rintro _ ⟨line, rfl⟩
    exact .integer line _
  | negative hdigits hlimit =>
    refine ⟨_, (integer_spoken hdigits hlimit).minus,
      Parser.readsAs_negated (t := .int _) nofun (fun _ _ => Parser.yields_int _) ?_⟩
    rintro line _ ⟨line', rfl⟩
    exact .negative line line' _
  | point hwhole hfraction =>
    refine ⟨_, point_spoken hwhole hfraction, (Parser.readsAs_float _).mono ?_⟩
    rintro _ ⟨line, rfl⟩
    exact .point line _
  | negativePoint hwhole hfraction =>
    refine ⟨_, (point_spoken hwhole hfraction).minus,
      Parser.readsAs_negated (t := .float _) nofun (fun _ _ => Parser.yields_float _) ?_⟩
    rintro line _ ⟨line', rfl⟩
    exact .negativePoint line line' _
  | bool b =>
    refine ⟨_, bool_spoken b, (Parser.readsAs_bool b).mono ?_⟩
    rintro _ ⟨line, rfl⟩
    exact .bool line b
  | none =>
    refine ⟨_, none_spoken, Parser.readsAs_none.mono ?_⟩
    rintro _ ⟨line, rfl⟩
    exact .none line
  | @path path n ss hroute =>
    refine ⟨_, hroute.spoken.endsWord, (Parser.readsAs_path (hroot n ss rfl) ss).mono ?_⟩
    rintro e ⟨line, he⟩
    exact .path line he

/-- What has the form of a permitted value is one. -/
theorem PropSource.Has.isValue {e : Expr} (h : src.Has f) (he : e.IsForm f)
    (hpermitted : src.PermittedBy p) : e.IsValue p src := by
  cases he with
  | text line t =>
    cases h
    exact .text line t
  | integer line n =>
    cases h with
    | integer hdigits => exact .integer line hdigits
  | negative line line' n =>
    cases h with
    | negative hdigits => exact .negative line line' hdigits
  | point line x =>
    cases h with
    | point hwhole hfraction => exact .point line hwhole hfraction
  | negativePoint line line' x =>
    cases h with
    | negativePoint hwhole hfraction => exact .negativePoint line line' hwhole hfraction
  | bool line b =>
    cases h
    exact .bool line b
  | none line =>
    cases h
    exact .none line
  | path line he =>
    cases h with
    | path hroute => exact .path line hroute (hpermitted _ rfl) he

/-! ### The replacement -/

/-- Permitted props are read word by word, as what their values have the form of. -/
theorem props_said {props : List (String × PropSource)} {texts : List (String × List Char)}
    (hprops : permitted p props = .ok texts) (hbound : ∀ q ∈ props, q.2.IntegersBelow integerLimit)
    (hread : ∀ q ∈ props, Text.isIdentifier q.1 = true ∧ ∃ value, propSource value = .ok q.2)
    (hroots : ∀ path n ss, Route path n ss → p.validateExpression (String.ofList path) = true → n ∉ keywords) :
    ∃ words forms,
      List.Forall₂ (fun t w => t.1 = w.1 ∧ Text.isIdentifier t.1 = true ∧ Spoken EndsWord t.2 w.2) texts words ∧
      List.Forall₂ FormFor props forms ∧
        List.Forall₂ (Parser.SaidFor Expr.IsForm) forms words := by
  have hall := permitted_ok hprops
  clear hprops
  induction hall with
  | nil => exact ⟨[], [], .nil, .nil, .nil⟩
  | @cons q t props texts hqt hrest ih =>
    obtain ⟨hqbound, hbound⟩ := List.forall_mem_cons.1 hbound
    obtain ⟨⟨hkey, value, hvalue⟩, hread⟩ := List.forall_mem_cons.1 hread
    obtain ⟨rfl, hpermitted⟩ := hqt
    obtain ⟨words, forms, hspoken, hforms, hsaid⟩ := ih hbound hread
    obtain ⟨f, hf⟩ := propSource_has hvalue hqbound
    have hroot : ∀ n ss, f = .path n ss → n ∉ keywords := by
      rintro n ss rfl
      generalize hsrc : q.2 = src at hf
      cases hf with
      | path hroute => exact hroots _ n ss hroute (hpermitted _ hsrc)
    obtain ⟨w, hw, hreads⟩ := hf.said hroot
    exact ⟨(q.1, w) :: words, (q.1, f) :: forms, .cons ⟨rfl, hkey, hw⟩ hspoken, .cons ⟨rfl, hf⟩ hforms,
      .cons ⟨rfl, hreads⟩ hsaid⟩

/-- The call that replaces a directive is read word by word, and its props as what their values have the form of. -/
theorem replacement_said {args : List Char} {d : Directive} {props : List (String × List Char)}
    (hd : Directive.parse args = .ok d) (hprops : permitted p d.props = .ok props)
    (hbound : ∀ q ∈ d.props, q.2.IntegersBelow integerLimit)
    (hroots : ∀ path n ss, Route path n ss → p.validateExpression (String.ofList path) = true → n ∉ keywords) :
    ∃ words forms, (callTag d.name props).Says (callTokens d.name words) ∧
      List.Forall₂ FormFor d.props forms ∧
        List.Forall₂ (Parser.SaidFor Expr.IsForm) forms words := by
  obtain ⟨-, rest, -, hname, hread⟩ := parse_ok hd
  have hgood := isComponentName_good hname
  rw [String.ofList_toList] at hgood
  have hread : ∀ q ∈ d.props, Text.isIdentifier q.1 = true ∧ ∃ value, propSource value = .ok q.2 := by
    intro q hq
    obtain ⟨w, -, hprop⟩ := hread q hq
    obtain ⟨value, -, hkey, hvalue⟩ := prop_ok hprop
    exact ⟨hkey, value, hvalue⟩
  obtain ⟨words, forms, hspoken, hforms, hsaid⟩ := props_said hprops hbound hread hroots
  exact ⟨words, forms, ⟨rfl, rfl, rfl, fun _ => rfl, callTag_spoken hgood hspoken⟩, hforms, hsaid⟩

/-- Words that are read as forms are read as the values that have them. -/
theorem said_values {props : List (String × PropSource)} {texts : List (String × List Char)}
    {forms : List (String × PropForm)} {words : List (String × List Token)} (hprops : permitted p props = .ok texts)
    (hforms : List.Forall₂ FormFor props forms)
    (hsaid : List.Forall₂ (Parser.SaidFor Expr.IsForm) forms words) :
    List.Forall₂ (Parser.SaidFor (Expr.IsValue p)) props words := by
  have hall := permitted_ok hprops
  clear hprops
  induction hforms generalizing texts words with
  | nil =>
    cases hsaid
    exact .nil
  | @cons q f props forms hqf hforms ih =>
    cases hall with
    | @cons _ t _ texts hqt hall =>
    cases hsaid with
    | @cons _ w _ words hfw hsaid =>
    refine .cons ⟨hfw.1.trans hqf.key, hfw.2.mono fun e he => ?_⟩ (ih hsaid hall)
    exact hqf.has.isValue he hqt.2

/-- A tag that ends with its delimiter loses no line end. -/
theorem withoutLastLineEnd_source (t : Tag) : withoutLastLineEnd t.source = t.source := by
  have hsource : t.source = ('\x7b' :: t.kind.opens :: (t.lead.source ++ (t.body ++ (t.trail.source ++
      [t.kind.closes])))) ++ ['\x7d'] := by
    simp [Tag.source]
  rw [hsource, withoutLastLineEnd, List.reverse_append]
  change (('\x7d' :: _) : List Char).reverse = _
  simp

/-- A source that is one expression is lexed as that and nothing beside it. -/
theorem tokenize_tag (space : BlockSpace) {t : Tag} {ws : List Token} (h : t.Says ws) :
    (tokenize space t.source).tokens.map Spanned.token = .exprStart :: (ws ++ [.exprEnd]) ∧
      (tokenize space t.source).fault = none := by
  have hsource : withoutLastLineEnd t.source = cutSource (inline [] [(t, [])]) := by
    rw [withoutLastLineEnd_source, cutSource_inline, inline, cutSource_chars, List.append_nil, List.nil_append]
  have hspeaks : List.Forall₂ (fun (c : Tag × List Char) (q : List Token × List Char) =>
      c.1.Says q.1 ∧ q.2 = c.2 ∧ '\x7b' ∉ c.2) [(t, [])] [(ws, [])] :=
    .cons ⟨h, rfl, List.not_mem_nil⟩ .nil
  exact tokenize_of_inline space hsource hspeaks List.not_mem_nil

/-- The one tag of such a source reaches from its beginning to its end. -/
theorem tags_of_parse {space : BlockSpace} {name : String} {b : List Stmt} {t : Tag} {ws : List Token} (h : t.Says ws)
    (hparse : parse space name t.source = .ok b) :
    (tokenize space t.source).tags = [⟨.expr, 0, some (Text.byteLength t.source), ws⟩] := by
  obtain ⟨ls, ts, hcut, hsource, hspelled, htokens, -, -⟩ := parse_lexed hparse
  rw [withoutLastLineEnd_source] at hsource
  rw [(tokenize_tag space h).1] at htokens
  have hlocal : (Chunk.tag t).IsLocal := by
    refine ⟨h.words.isScanned fun rest => ?_, fun hbare => ?_⟩
    · rw [h.lead]
      exact h.start rest
    · cases h.kind.symm.trans hbare.1
  have hone : Cut [.tag t] [] := .cons hlocal nofun (.nil [])
  have htag : cutSource [.tag t] = t.source := by
    rw [cutSource_cons, Chunk.source_tag, cutSource_nil, List.append_nil]
  have hls : ls = [.tag t] := by
    obtain ⟨more, hls, hmore⟩ := hone.reads hcut (by rw [← hsource, htag, List.append_nil])
    rw [cutSource_eq_nil hmore.symm, List.append_nil] at hls
    exact hls.symm
  subst hls
  generalize (tokenize space t.source).tags = tags at hspelled
  cases hspelled with
  | @tag _ _ ws' _ ts' _ hw hrest =>
    cases hrest
    rw [h.kind] at htokens ⊢
    obtain ⟨-, hws⟩ := List.cons.inj htokens
    rw [List.append_cancel_right hws, Nat.zero_add]

/-- What is read from one expression alone is a statement that writes it. -/
theorem parse_call {V : Expr → α → Prop} {space : BlockSpace} {t : Tag} {component : String}
    {props : List (String × α)} {words : List (String × List Token)} (h : t.Says (callTokens component words))
    (hprops : List.Forall₂ (Parser.SaidFor V) props words) (name : String) :
    ∃ e, parse space name t.source = .ok [.emit e] ∧ e.Calls V component props := by
  obtain ⟨htokens, hfault⟩ := tokenize_tag space h
  have hcall : CallFor V ((component, props), []) (callTokens component words, []) := ⟨⟨words, rfl, hprops⟩, rfl⟩
  have htokens : _ = inlineTokens [] [(callTokens component words, [])] := htokens
  obtain ⟨ss, hparse, hss⟩ := parse_inline htokens hfault (.cons hcall .nil) name
  cases hss with
  | cons he hrest =>
    cases hrest
    exact ⟨_, hparse, he⟩

/-- What a directive is replaced by cannot be made to hold template code. It opens no tag at all, or it is lexed as one
expression from its beginning to its end, which is read as one call: of the function that makes placeholders, with a
name that the policy accepts and a map that has the keys of the directive in their order, and under each of them a
constant, with a minus in front of it or none, or a permitted path. Integers are those that the lexer has numbers
for. -/
theorem replacement_confined {s : Policy.Settings} (hp : SecurityPolicy.compile s = .ok p)
    (hroots : ∀ r ∈ s.expressionAllowlist, r ∉ keywords) {args : List Char} {d : Directive}
    (hd : Directive.parse args = .ok d) (hbound : ∀ q ∈ d.props, q.2.IntegersBelow integerLimit)
    (registry : Option Component.Registry) :
    '\x7b' ∉ (d.replacement p registry).source ∨
      p.validateComponent d.name = true ∧ (∀ r ∈ registry, r.contains d.name = true) ∧ ∃ words, ∀ space,
        (tokenize space (d.replacement p registry).source).tokens.map Spanned.token =
          .exprStart :: (words ++ [.exprEnd]) ∧
        (tokenize space (d.replacement p registry).source).fault = none ∧
        (tokenize space (d.replacement p registry).source).tags =
          [⟨.expr, 0, some (Text.byteLength (d.replacement p registry).source), words⟩] ∧
        ∀ name, ∃ e, parse space name (d.replacement p registry).source = .ok [.emit e] ∧
          e.Calls (Expr.IsValue p) d.name d.props := by
  have hblock (m : Component.Marker) (message : String) :
      '\x7b' ∉ (Replacement.block (Component.errorBlock m d.name message)).source :=
    (errorBlock_isMarkup m d.name message).brace_free
  unfold replacement
  split
  · exact .inl (hblock _ _)
  · next hname =>
    split
    · exact .inl (hblock _ _)
    · next hregistry =>
      split
      · next props hprops =>
        right
        have hkeys : ∀ path n ss, Route path n ss → p.validateExpression (String.ofList path) = true → n ∉ keywords :=
          fun path n ss hroute hallowed => hroots n (hroute.root_mem hp hallowed)
        obtain ⟨words, forms, hspoken, hforms, hsaid⟩ := replacement_said hd hprops hbound hkeys
        have hvalues := said_values hprops hforms hsaid
        refine ⟨by simpa using hname, fun r hr => ?_, callTokens d.name words, fun space => ?_⟩
        · rw [hr] at hregistry
          simpa using hregistry
        · rw [← callTag_source]
          obtain ⟨e, hparse, -⟩ : ∃ e, parse space "" _ = .ok [.emit e] ∧ _ := parse_call hspoken hvalues ""
          exact ⟨(tokenize_tag space hspoken).1, (tokenize_tag space hspoken).2, tags_of_parse hspoken hparse,
            parse_call hspoken hvalues⟩
      · exact .inl (hblock _ _)

/-- Settings that let `A` be placed and bound to what stands under `input`. -/
def oneRoot : Policy.Settings :=
  { allowedComponents := ["A"], bindingPathPattern := "[a-z]+", expressionAllowlist := ["input"] }

/-- Quotes and delimiters in a text, a number with a sign and a point, and a path. -/
theorem replacement_confined_delimiters : ∃ p d, SecurityPolicy.compile oneRoot = .ok p ∧
    Directive.parse "A t='\x7d) \x7d\x7d\\'\"' n=-1.5 v=input.text".toList = .ok d ∧
    '\x7b' ∈ (d.replacement p none).source ∧
    ∃ e, parse .layout "" (d.replacement p none).source = .ok [.emit e] ∧ e.Calls (Expr.IsValue p) d.name d.props := by
  let d : Directive := ⟨"A", [("t", .literal "\"\x7d) \x7d\x7d'\\\"\"".toList), ("n", .literal "-1.5".toList),
    ("v", .binding "input.text".toList)]⟩
  have hd : Directive.parse "A t='\x7d) \x7d\x7d\\'\"' n=-1.5 v=input.text".toList = .ok d := by decide +kernel
  have hbound : ∀ q ∈ d.props, q.2.IntegersBelow integerLimit := by
    simp only [d, List.forall_mem_cons, List.not_mem_nil, false_implies, implies_true, and_true]
    refine ⟨?_, ?_, ?_⟩
    · rintro digits (rfl | hsource) hdigits
      · revert hdigits
        decide
      · cases hsource
    · rintro digits (rfl | hsource) hdigits
      · revert hdigits
        decide
      · obtain ⟨-, rfl⟩ := List.cons.inj hsource
        revert hdigits
        decide
    · intro before digits after hpath hdigits
      have hmem : '[' ∈ "input.text".toList := hpath ▸ by simp
      exact absurd hmem (by decide)
  let p : SecurityPolicy := ⟨⟨some ["A"]⟩, ⟨["input"]⟩, .rounds (.one (.range 'a' 'z')) 1 none, 10, 1000⟩
  have hp : SecurityPolicy.compile oneRoot = .ok p := rfl
  have hbrace : '\x7b' ∈ (d.replacement p none).source := by decide +kernel
  have hconfined := replacement_confined hp (by decide) hd hbound none
  obtain ⟨-, -, words, hall⟩ := hconfined.resolve_left fun hfree => hfree hbrace
  exact ⟨p, d, hp, hd, hbrace, (hall .layout).2.2.2 ""⟩

end SecureLayout.Template
