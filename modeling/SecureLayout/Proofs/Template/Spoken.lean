import SecureLayout.Proofs.Template.Written

/-!
The words of a call. Main statement: the lexer reads in a call the name of the component, the keys of its props and
what their values denote, `callTag_spoken`.
-/

namespace SecureLayout.Template

open Directive Lexer

variable {d : Nat} {s rest w : List Char} {t : Token} {ts ts' : List Token} {mark : Mark} {data v u : Json.Value}

/-! ### Words of values -/

/-- Where names and positions lead to in a value. -/
inductive Follows : Json.Value → List Token → Json.Value → Prop
  | nil (v : Json.Value) : Follows v [] v
  | member {v u w : Json.Value} {n : String} {ts : List Token} (hu : v.member? n = some u) (h : Follows u ts w) :
    Follows v (.symbol .dot :: .name n :: ts) w
  | item {vs : List Json.Value} {u w : Json.Value} {k : Nat} {ts : List Token} (hk : k < Numeric.twoTo 63)
    (hu : vs[k]? = some u) (h : Follows u ts w) :
    Follows (.list vs) (.symbol .bracketOpen :: .int k :: .symbol .bracketClose :: ts) w

theorem Follows.append {v u w : Json.Value} {ts ts' : List Token} (h : Follows v ts u) (h' : Follows u ts' w) :
    Follows v (ts ++ ts') w := by
  induction h with
  | nil v => exact h'
  | member hu h ih => exact .member hu (ih h')
  | item hk hu h ih => exact .item hk hu (ih h')

/-- A step of a path behind its root. -/
inductive Step where
  | member (n : String)
  | item (k : Nat)

/-- The words of a step. -/
def Step.tokens : Step → List Token
  | member n => [.symbol .dot, .name n]
  | item k => [.symbol .bracketOpen, .int k, .symbol .bracketClose]

/-- The text of a path: a root, and members and positions behind it that the lexer has numbers for. -/
inductive Route : List Char → String → List Step → Prop
  | root {n : String} (hn : Text.isIdentifier n = true) : Route n.toList n []
  | member {path : List Char} {n m : String} {ss : List Step} (h : Route path n ss) (hm : Text.isIdentifier m = true) :
    Route (path ++ '.' :: m.toList) n (ss ++ [.member m])
  | item {path digits : List Char} {n : String} {ss : List Step} (h : Route path n ss)
    (hdigits : isDigits digits = true) (hlimit : decimal digits < integerLimit) :
    Route (path ++ '[' :: (digits ++ [']'])) n (ss ++ [.item (decimal digits)])

/-- What the words of a value denote on some data. -/
inductive Utters (data : Json.Value) : List Token → Json.Value → Prop
  | text (t : String) : Utters data [.string t] (.text t)
  | integer {n : Nat} (hn : n < Numeric.twoTo 64) : Utters data [.int n] (.ofNat n)
  | negative {n : Nat} (hn : n ≤ Numeric.twoTo 63) : Utters data [.symbol .minus, .int n] (.ofInt (-n))
  | bool (b : Bool) : Utters data [.name (if b then "true" else "false")] (.bool b)
  | null : Utters data [.name "none"] .null
  | path {n : String} {ts : List Token} {v w : Json.Value} (hkey : n ∉ keywords) (hv : data.member? n = some v)
    (h : Follows v ts w) (hw : w.Fits 100) : Utters data (.name n :: ts) w

/-! ### Reading them -/

/-- The text does not go on with a name. -/
def EndsName (s : List Char) : Prop :=
  ∀ a r, s = a :: r → Text.isNamePart a = false

/-- The text goes on neither with a name nor with a number. -/
def EndsWord (s : List Char) : Prop :=
  ∀ a r, s = a :: r → Text.isNamePart a = false ∧ a ≠ '.'

theorem EndsWord.endsName (h : EndsWord s) : EndsName s :=
  fun a r hs => (h a r hs).1

theorem endsWord_cons {c : Char} (hc : Text.isNamePart c = false ∧ c ≠ '.') : EndsWord (c :: s) := by
  rintro a r h
  obtain ⟨rfl, -⟩ := List.cons.inj h
  exact hc

/-- Between brackets the lexer reads the words from the text, if what follows is as told. -/
def Spoken (ends : List Char → Prop) (w : List Char) (ts : List Token) : Prop :=
  ∀ d s ts' mark rest, ends s → Coded .expr (d + 1) s ts' mark rest → Coded .expr (d + 1) (w ++ s) (ts ++ ts') mark rest

theorem Coded.symbol {c : Char} {y : Symbol} (hy : symbol? (c :: s) = some (y, 1))
    (h : Coded .expr (bracketDepth (d + 1) c) s ts mark rest) :
    Coded .expr (d + 1) (c :: s) (.symbol y :: ts) mark rest :=
  .word nofun (.symbol hy) h

theorem Coded.string {body : List Char} {x : String} (hbody : StaysInside body) (hx : unescaped? body = some x)
    (h : Coded .expr (d + 1) s ts mark rest) :
    Coded .expr (d + 1) ('"' :: (body ++ '"' :: s)) (.string x :: ts) mark rest := by
  refine .word nofun (.string (.inl rfl) (hbody.stringBody? s) hx) ?_
  have hdrop : ('"' :: (body ++ '"' :: s)).drop (body.length + 2) = s :=
    (stringBody?_split (hbody.stringBody? s)).2
  rw [hdrop]
  exact h

theorem digitsIn?_decimal {digits : List Char} (h : ∀ c ∈ digits, c.isDigit = true) (n : Nat) :
    digits.foldlM (fun n c =>
      match hexDigit? c with
      | some d => if d < 10 then some (10 * n + d) else none
      | none => none) n = some (Nat.ofDigitChars 10 digits n) := by
  induction digits generalizing n with
  | nil => rfl
  | cons c digits ih =>
    obtain ⟨hc, hdigits⟩ := List.forall_mem_cons.1 h
    have hlt : c.toNat - 48 < 10 := by
      simp only [Char.isDigit, Bool.and_eq_true, decide_eq_true_eq] at hc
      have hnine : c.toNat ≤ 57 := UInt32.le_iff_toNat_le.1 hc.2
      omega
    rw [List.foldlM_cons, hexDigit?, if_pos hc]
    dsimp only
    rw [if_pos hlt, Nat.ofDigitChars_cons]
    exact ih hdigits _

theorem next?_digit {c : Char} (h : c.isDigit = true) :
    NumberPart.whole.next? c = some .whole ∧ NumberPart.fraction.next? c = some .fraction := by
  unfold NumberPart.next?
  constructor
  all_goals
    split <;> first | rfl | cases h | skip
    all_goals simp_all

theorem next?_end {c : Char} (hc : Text.isNamePart c = false) :
    (c ≠ '.' → NumberPart.whole.next? c = none) ∧ NumberPart.fraction.next? c = none := by
  have hdigit : c.isDigit = false := by
    cases hd : c.isDigit with
    | false => rfl
    | true =>
      rw [isNamePart_of_isDigit hd] at hc
      cases hc
  have hpart : ∀ c ∈ ['_', 'e', 'E'], Text.isNamePart c = true := List.all_iff_forall_prop.1 (by decide)
  have hplain : c ∉ ['_', 'e', 'E'] := fun hmem => by
    rw [hpart c hmem] at hc
    cases hc
  simp only [List.mem_cons, List.not_mem_nil, or_false, not_or] at hplain
  unfold NumberPart.next?
  constructor
  · intro hpoint
    split <;> simp_all
  · split <;> simp_all

/-- No base is named by a digit or by what ends a word. -/
theorem numberHead_decimal {digits : List Char} (h : ∀ c ∈ digits, c.isDigit = true) (hs : EndsName s) :
    Lexer.numberHead (digits ++ s) = (10, .whole, 0) := by
  have hbase : ∀ c ∈ ['b', 'B', 'o', 'O', 'x', 'X'], c.isDigit = false ∧ Text.isNamePart c = true :=
    List.all_iff_forall_prop.1 (by decide)
  unfold Lexer.numberHead
  split
  · next c r heq =>
    have hplain : c ∉ ['b', 'B', 'o', 'O', 'x', 'X'] := by
      intro hmem
      obtain ⟨hdigit, hpart⟩ := hbase c hmem
      cases digits with
      | nil =>
        have hzero := hs _ _ heq
        cases hzero
      | cons a digits =>
        obtain ⟨-, heq⟩ := List.cons.inj heq
        cases digits with
        | nil =>
          rw [hs _ _ heq] at hpart
          cases hpart
        | cons a' digits =>
          obtain ⟨rfl, -⟩ := List.cons.inj heq
          rw [h a' (List.mem_cons_of_mem _ List.mem_cons_self)] at hdigit
          cases hdigit
    simp only [List.mem_cons, List.not_mem_nil, or_false, not_or] at hplain
    simp [hplain]
  · rfl

/-- Digits belong to the part of a number that they stand in. -/
theorem numberText_digits {part : NumberPart} (hpart : ∀ c : Char, c.isDigit = true → part.next? c = some part)
    {digits : List Char} (h : ∀ c ∈ digits, c.isDigit = true) (s : List Char) :
    numberText part (digits ++ s) = (digits ++ (numberText part s).1, (numberText part s).2) := by
  induction digits with
  | nil => rfl
  | cons c digits ih =>
    obtain ⟨hc, hdigits⟩ := List.forall_mem_cons.1 h
    rw [List.cons_append, numberText_cons, hpart c hc]
    dsimp only
    rw [ih hdigits]
    rfl

theorem numberText_end {part : NumberPart} (h : ∀ a r, s = a :: r → part.next? a = none) :
    numberText part s = ([], part) := by
  cases s with
  | nil => rfl
  | cons a r => rw [numberText_cons, h a r rfl]

theorem numberText_decimal {digits : List Char} (h : ∀ c ∈ digits, c.isDigit = true) (hs : EndsWord s) :
    numberText .whole (digits ++ s) = (digits, .whole) := by
  rw [numberText_digits (fun c hc => (next?_digit hc).1) h,
    numberText_end fun a r ha => (next?_end (hs a r ha).1).1 (hs a r ha).2, List.append_nil]

theorem numberText_point {whole fraction : List Char} (hwhole : ∀ c ∈ whole, c.isDigit = true)
    (hfraction : ∀ c ∈ fraction, c.isDigit = true) (hs : EndsName s) :
    numberText .whole (whole ++ '.' :: (fraction ++ s)) = (whole ++ '.' :: fraction, .fraction) := by
  have hpoint : NumberPart.whole.next? '.' = some .fraction := rfl
  rw [numberText_digits (fun c hc => (next?_digit hc).1) hwhole, numberText_cons, hpoint]
  dsimp only
  rw [numberText_digits (fun c hc => (next?_digit hc).2) hfraction,
    numberText_end fun a r ha => (next?_end (hs a r ha)).2, List.append_nil]

theorem digits_plain {digits : List Char} (h : ∀ c ∈ digits, c.isDigit = true) :
    '_' ∉ digits ∧ '.' ∉ digits ∧ '-' ∉ digits := by
  have hnot : ∀ c : Char, c.isDigit = false → c ∉ digits := fun c hc hmem => by
    rw [h c hmem] at hc
    cases hc
  exact ⟨hnot _ rfl, hnot _ rfl, hnot _ rfl⟩

theorem filter_of_plain {cs : List Char} (h : '_' ∉ cs) : cs.getLast? ≠ some '_' ∧ cs.filter (· != '_') = cs := by
  refine ⟨fun hlast => h (List.mem_of_getLast? hlast), List.filter_eq_self.2 fun c hc => bne_iff_ne.2 ?_⟩
  rintro rfl
  exact h hc

theorem digitsIn?_eq_decimal {digits : List Char} (hne : digits ≠ []) (h : ∀ c ∈ digits, c.isDigit = true) :
    digitsIn? 10 digits = some (decimal digits) := by
  rw [digitsIn?, if_neg (by simpa using hne)]
  exact digitsIn?_decimal h 0

/-- Digits are read as the number they stand for. -/
theorem number_decimal {digits : List Char} (h : Directive.isDigits digits = true)
    (hword : decimal digits < integerLimit) (hs : EndsWord s) :
    number (digits ++ s) = (.ok (.int (decimal digits)), digits.length) := by
  obtain ⟨hne, hdigits⟩ := isDigits_chars h
  obtain ⟨hlast, hfilter⟩ := filter_of_plain (digits_plain hdigits).1
  refine number_eq_iff.2 ⟨10, .whole, 0, digits, .whole, numberHead_decimal hdigits hs.endsName,
    numberText_decimal hdigits hs, ?_, Nat.zero_add _⟩
  rw [Lexer.numberToken, if_neg hlast, hfilter]
  rw [Lexer.integer, digitsIn?_eq_decimal hne hdigits]
  dsimp only
  rw [if_pos hword]

/-- The number that digits with a point between them stand for. -/
def decimalPoint (whole fraction : List Char) : Numeric.Double :=
  .ofScientific (decimal (whole ++ fraction)) (-fraction.length)

theorem float?_point {whole fraction : List Char} (hwhole : isDigits whole = true)
    (hfraction : isDigits fraction = true) :
    float? (whole ++ '.' :: fraction) = some (decimalPoint whole fraction) := by
  obtain ⟨hne, hwhole⟩ := isDigits_chars hwhole
  obtain ⟨-, hfraction⟩ := isDigits_chars hfraction
  have hall : ∀ c ∈ whole ++ fraction, c.isDigit = true := List.forall_mem_append.2 ⟨hwhole, hfraction⟩
  have hvalue := digitsIn?_eq_decimal (List.append_ne_nil_of_left_ne_nil hne fraction) hall
  have htake : (whole ++ '.' :: fraction).takeWhile Char.isDigit = whole := by
    rw [List.takeWhile_append_of_pos hwhole, List.takeWhile_cons_of_neg (by decide), List.append_nil]
  have hdrop : (whole ++ '.' :: fraction).dropWhile Char.isDigit = '.' :: fraction := by
    rw [List.dropWhile_append_of_pos hwhole, List.dropWhile_cons_of_neg (by decide)]
  have hrest : Lexer.fraction ('.' :: fraction) = (fraction, []) := by
    rw [Lexer.fraction, List.takeWhile_eq_self_iff.2 hfraction, List.dropWhile_eq_nil_iff.2 hfraction]
  unfold float?
  rw [htake, hdrop, hrest]
  dsimp only
  rw [exponent?, hvalue]
  dsimp only
  rw [if_neg (by omega), if_neg (by omega), Int.zero_sub]
  rfl

/-- Digits with a point between them are read as the number they stand for. -/
theorem number_point {whole fraction : List Char} (hwhole : isDigits whole = true) (hfraction : isDigits fraction = true)
    (hs : EndsName s) : number (whole ++ '.' :: (fraction ++ s)) =
      (.ok (.float (decimalPoint whole fraction)), (whole ++ '.' :: fraction).length) := by
  have hw := (isDigits_chars hwhole).2
  have hf := (isDigits_chars hfraction).2
  have hplain : '_' ∉ whole ++ '.' :: fraction := by
    rw [List.mem_append, List.mem_cons]
    rintro (hmem | hmem | hmem)
    · exact (digits_plain hw).1 hmem
    · cases hmem
    · exact (digits_plain hf).1 hmem
  obtain ⟨hlast, hfilter⟩ := filter_of_plain hplain
  have hpoint : EndsName ('.' :: (fraction ++ s)) := by
    rintro a r ha
    obtain ⟨rfl, -⟩ := List.cons.inj ha
    rfl
  refine number_eq_iff.2 ⟨10, .whole, 0, whole ++ '.' :: fraction, .fraction, numberHead_decimal hw hpoint,
    numberText_point hw hf hs, ?_, Nat.zero_add _⟩
  rw [Lexer.numberToken, if_neg hlast, hfilter, float?_point hwhole hfraction]
  · exact nofun
  · exact nofun

theorem Coded.number {digits : List Char} (h : Directive.isDigits digits = true)
    (hword : decimal digits < integerLimit) (hs : EndsWord s) (hcoded : Coded .expr (d + 1) s ts mark rest) :
    Coded .expr (d + 1) (digits ++ s) (.int (decimal digits) :: ts) mark rest := by
  obtain ⟨c, r, rfl⟩ := List.exists_cons_of_ne_nil (isDigits_chars h).1
  refine .word nofun (.number ((isDigits_chars h).2 c List.mem_cons_self) (number_decimal h hword hs)) ?_
  rw [List.drop_left' rfl]
  exact hcoded

theorem Coded.point {whole fraction : List Char} (hwhole : Directive.isDigits whole = true)
    (hfraction : Directive.isDigits fraction = true) (hs : EndsName s) (hcoded : Coded .expr (d + 1) s ts mark rest) :
    Coded .expr (d + 1) (whole ++ '.' :: fraction ++ s) (.float (decimalPoint whole fraction) :: ts) mark rest := by
  have hnumber := number_point hwhole hfraction hs
  obtain ⟨c, r, rfl⟩ := List.exists_cons_of_ne_nil (isDigits_chars hwhole).1
  have hsource : c :: r ++ '.' :: fraction ++ s = c :: (r ++ '.' :: (fraction ++ s)) := by simp
  have hdrop : (c :: (r ++ '.' :: (fraction ++ s))).drop (c :: r ++ '.' :: fraction).length = s := by
    rw [← hsource, List.drop_left' rfl]
  rw [hsource]
  refine .word nofun (.number ((isDigits_chars hwhole).2 c List.mem_cons_self) hnumber) ?_
  rw [hdrop]
  exact hcoded

theorem isIdentifier_spoken {n : String} (h : Text.isIdentifier n = true) : Spoken EndsName n.toList [.name n] := by
  intro d s ts' mark rest hs hcoded
  obtain ⟨c, w, hcs, hc, hw⟩ := isIdentifier_chars h
  have hname := Coded.name hc hw hs hcoded
  rw [← hcs, String.ofList_toList] at hname
  exact hname

/-- The lexer reads the root of a path and its steps. -/
theorem Route.spoken {path : List Char} {n : String} {ss : List Step} (h : Route path n ss) :
    Spoken EndsName path (.name n :: ss.flatMap Step.tokens) := by
  induction h with
  | root hn => exact isIdentifier_spoken hn
  | @member path n m ss h hm ih =>
    intro d s ts' mark rest hs hcoded
    have hname := Coded.symbol (c := '.') rfl (isIdentifier_spoken hm d s ts' mark rest hs hcoded)
    have hall := ih d _ _ mark rest (fun a r ha => by obtain ⟨rfl, -⟩ := List.cons.inj ha; rfl) hname
    simpa [Step.tokens] using hall
  | @item path digits n ss h hdigits hlimit ih =>
    intro d s ts' mark rest hs hcoded
    have hclose : Coded .expr (d + 2) (']' :: s) (.symbol .bracketClose :: ts') mark rest := .symbol rfl hcoded
    have hitem := Coded.number hdigits hlimit (endsWord_cons ⟨rfl, by decide⟩) hclose
    have hopen : Coded .expr (d + 1) ('[' :: (digits ++ ']' :: s)) _ mark rest := .symbol rfl hitem
    have hall := ih d _ _ mark rest (fun a r ha => by obtain ⟨rfl, -⟩ := List.cons.inj ha; rfl) hopen
    simpa [Step.tokens] using hall

theorem Resolves.route {path : List Char} (h : Resolves data path v) : ∃ n u ss, n ∉ keywords ∧
    data.member? n = some u ∧ Follows u (ss.flatMap Step.tokens) v ∧ Route path n ss := by
  induction h with
  | root hn hkey h => exact ⟨_, _, [], hkey, h, .nil _, .root hn.identifier⟩
  | member h hn hw ih =>
    obtain ⟨n, u, ss, hkey, hu, hss, hroute⟩ := ih
    refine ⟨n, u, _, hkey, hu, ?_, hroute.member hn.identifier⟩
    rw [List.flatMap_append]
    exact hss.append (.member hw (.nil _))
  | item h hdigits hword hw ih =>
    obtain ⟨n, u, ss, hkey, hu, hss, hroute⟩ := ih
    refine ⟨n, u, _, hkey, hu, ?_, hroute.item hdigits (hword.trans (by decide))⟩
    rw [List.flatMap_append]
    exact hss.append (.item hword hw (.nil _))

/-! ### Texts -/

theorem unescape?_control : ∀ n < 32, unit? '0' '0' (Nat.digitChar (n / 16)) (Nat.digitChar (n % 16)) = some n := by
  decide

theorem unescape?_escapeChar (c : Char) (r : List Char) :
    unescape? none (Json.escapeChar c ++ r) = (unescape? none r).map (c :: ·) := by
  have hsimple : ∀ e a : Char, e ≠ 'u' → simpleEscape? e = some a →
      unescape? none ('\\' :: e :: r) = (unescape? none r).map (a :: ·) := by
    intro e a he ha
    rw [unescape?, ha]
    · cases unescape? none r <;> rfl
    · intro a b c d r' heq
      exact absurd heq he
  unfold Json.escapeChar
  split
  · exact hsimple '"' _ (by decide) rfl
  · exact hsimple '\\' _ (by decide) rfl
  · exact hsimple 'n' _ (by decide) rfl
  · exact hsimple 'r' _ (by decide) rfl
  · exact hsimple 't' _ (by decide) rfl
  · exact hsimple 'b' _ (by decide) rfl
  · exact hsimple 'f' _ (by decide) rfl
  · next hslash _ _ _ _ _ =>
    split
    · next hc =>
      have hplain : isSurrogate c.toNat = false := by
        rw [isSurrogate, Bool.and_eq_false_iff]
        exact .inl (decide_eq_false (by omega))
      change unescape? none ('\\' :: 'u' :: '0' :: '0' :: _ :: _ :: r) = _
      rw [unescape?, unescape?_control _ hc]
      change (if isSurrogate c.toNat then _ else _) = _
      rw [hplain, if_neg Bool.false_ne_true, Char.ofNat_toNat]
      cases unescape? none r <;> rfl
    · rw [List.singleton_append, unescape?]
      · cases unescape? none r <;> rfl
      all_goals
        intros
        contradiction

/-- An escaped text is read as the text. -/
theorem unescaped?_escaped (t : String) : unescaped? (t.toList.flatMap Json.escapeChar) = some t := by
  have hchars : ∀ cs : List Char, unescape? none (cs.flatMap Json.escapeChar) = some cs := by
    intro cs
    induction cs with
    | nil => rfl
    | cons c cs ih => rw [List.flatMap_cons, unescape?_escapeChar, ih]; rfl
  rw [unescaped?, hchars, Option.map_some, String.ofList_toList]

/-! ### Single values -/

theorem Spoken.endsWord (h : Spoken EndsName w ts) : Spoken EndsWord w ts :=
  fun d s ts' mark rest hs hcoded => h d s ts' mark rest hs.endsName hcoded

/-- A minus is a word of its own. -/
theorem Spoken.minus {ends : List Char → Prop} (h : Spoken ends w ts) :
    Spoken ends ('-' :: w) (.symbol .minus :: ts) :=
  fun d s ts' mark rest hs hcoded => .symbol rfl (h d s ts' mark rest hs hcoded)

theorem renderText_spoken (t : String) : Spoken EndsWord (Json.renderText t.toList) [.string t] := by
  intro d s ts' mark rest hs hcoded
  have hstring := hcoded.string (escaped_staysInside t.toList) (unescaped?_escaped t)
  rw [Json.renderText, List.cons_append, List.append_assoc]
  exact hstring

theorem integer_spoken {digits : List Char} (h : isDigits digits = true) (hlimit : decimal digits < integerLimit) :
    Spoken EndsWord digits [.int (decimal digits)] :=
  fun _ _ _ _ _ hs hcoded => hcoded.number h hlimit hs

theorem point_spoken {whole fraction : List Char} (hwhole : isDigits whole = true)
    (hfraction : isDigits fraction = true) :
    Spoken EndsWord (whole ++ '.' :: fraction) [.float (decimalPoint whole fraction)] :=
  fun _ _ _ _ _ hs hcoded => hcoded.point hwhole hfraction hs.endsName

theorem bool_spoken (b : Bool) :
    Spoken EndsWord (if b then "true" else "false").toList [.name (if b then "true" else "false")] :=
  (isIdentifier_spoken (by cases b <;> decide)).endsWord

theorem none_spoken : Spoken EndsWord "none".toList [.name "none"] :=
  (isIdentifier_spoken (by decide)).endsWord

/-- The lexer reads from the text of a value what it denotes. -/
theorem Means.spoken (h : Means data w v) : ∃ ts, Utters data ts v ∧ Spoken EndsWord w ts := by
  cases h with
  | text t => exact ⟨_, .text t, renderText_spoken t⟩
  | integer hdigits hword => exact ⟨_, .integer hword, integer_spoken hdigits (hword.trans (by decide))⟩
  | negative hdigits hword =>
    exact ⟨_, .negative hword, (integer_spoken hdigits (hword.trans_lt (by decide))).minus⟩
  | bool b => exact ⟨_, .bool b, bool_spoken b⟩
  | null => exact ⟨_, .null, none_spoken⟩
  | path h hv =>
    obtain ⟨n, u, ss, hkey, hu, hss, hroute⟩ := h.route
    exact ⟨_, .path hkey hu hss hv, hroute.spoken.endsWord⟩

/-! ### The call -/

/-- The words of props: each a key and those of its value. -/
def propTokens : List (String × List Token) → List Token
  | [] => []
  | [p] => .string p.1 :: .symbol .colon :: p.2
  | p :: r => .string p.1 :: .symbol .colon :: (p.2 ++ .symbol .comma :: propTokens r)

/-- The words of a call. -/
def callTokens (name : String) (props : List (String × List Token)) : List Token :=
  .name placeholderFunction :: .symbol .parenOpen :: .string name :: .symbol .comma :: .symbol .braceOpen ::
    (propTokens props ++ [.symbol .braceClose, .symbol .parenClose])

theorem unescaped?_plain {t : String} (h : ∀ c ∈ t.toList, Text.isNamePart c = true ∨ c = '-' ∨ c = '.') :
    unescaped? t.toList = some t := by
  rw [unescaped?, unescape?_plain, Option.map_some, String.ofList_toList]
  rintro c hc rfl
  rcases h _ hc with h | h | h <;> cases h

theorem renderProp_spoken {key : String} {w : List Char} {ts : List Token} (hkey : Text.isIdentifier key = true)
    (h : Spoken EndsWord w ts) : Spoken EndsWord (renderProp (key, w)) (.string key :: .symbol .colon :: ts) := by
  intro d s ts' mark rest hs hcoded
  have hplain : ∀ c ∈ key.toList, Text.isNamePart c = true ∨ c = '-' ∨ c = '.' :=
    fun c hc => .inl (isIdentifier_quiet hkey c hc)
  have hcolon : Coded .expr (d + 1) (':' :: ' ' :: (w ++ s)) (.symbol .colon :: (ts ++ ts')) mark rest :=
    .symbol rfl (.blank rfl (h d s ts' mark rest hs hcoded))
  have hprop := hcolon.string (staysInside_of_isNamePart hplain) (unescaped?_plain hplain)
  simpa [renderProp] using hprop

/-- The lexer reads the keys of props and what their values denote. -/
theorem renderProps_spoken {props : List (String × List Char)} {words : List (String × List Token)}
    (h : List.Forall₂ (fun p q => p.1 = q.1 ∧ Text.isIdentifier p.1 = true ∧ Spoken EndsWord p.2 q.2) props words) :
    Spoken EndsWord (renderProps props) (propTokens words) := by
  induction h with
  | nil => exact fun d s ts' mark rest hs hcoded => hcoded
  | @cons p q ps qs hpq hrest ih =>
    obtain ⟨key, w⟩ := p
    obtain ⟨key', ts⟩ := q
    obtain ⟨hname, hkey, hvalue⟩ := hpq
    obtain rfl : key = key' := hname
    have hprop := renderProp_spoken hkey hvalue
    cases hrest with
    | nil => exact hprop
    | @cons p' q' ps qs hpq' hrest =>
      intro d s ts' mark rest hs hcoded
      have hmore : Coded .expr (d + 1) (',' :: ' ' :: (renderProps (p' :: ps) ++ s))
          (.symbol .comma :: (propTokens (q' :: qs) ++ ts')) mark rest :=
        .symbol rfl (.blank rfl (ih d s ts' mark rest hs hcoded))
      have hall := hprop d _ _ mark rest (endsWord_cons ⟨rfl, by decide⟩) hmore
      simpa [renderProps, propTokens] using hall

/-- The lexer reads what a call begins with. -/
theorem call_spoken {name : String} (hname : GoodName name) (h : Coded .expr 2 s ts mark rest) :
    Coded .expr 0 (placeholderFunction.toList ++ '(' :: '"' :: (name.toList ++ '"' :: ',' :: ' ' :: '\x7b' :: s))
      (.name placeholderFunction :: .symbol .parenOpen :: .string name :: .symbol .comma :: .symbol .braceOpen :: ts)
        mark rest := by
  have hcomma : Coded .expr 1 (',' :: ' ' :: '\x7b' :: s) (.symbol .comma :: .symbol .braceOpen :: ts) mark rest :=
    .symbol (d := 0) rfl (.blank rfl (.symbol (d := 0) rfl h))
  have hstring := hcomma.string (d := 0) (staysInside_of_isNamePart hname) (unescaped?_plain hname)
  have hopen : Coded .expr 0 ('(' :: '"' :: (name.toList ++ '"' :: ',' :: ' ' :: '\x7b' :: s))
      (.symbol .parenOpen :: .string name :: .symbol .comma :: .symbol .braceOpen :: ts) mark rest :=
    .word (fun _ => closing?_eq_none _ (by decide)) (.symbol rfl) hstring
  exact Coded.name (c := '_') (w := "_lg_component".toList) (by decide) (List.all_iff_forall_prop.1 (by decide))
    (by rintro a r ⟨⟩; decide) hopen

/-- The lexer reads in a call what it was made of. -/
theorem callTag_spoken {name : String} {props : List (String × List Char)} {words : List (String × List Token)}
    (hname : GoodName name)
    (h : List.Forall₂ (fun p q => p.1 = q.1 ∧ Text.isIdentifier p.1 = true ∧ Spoken EndsWord p.2 q.2) props words) :
    (callTag name props).Words (callTokens name words) := by
  intro rest
  have hend : Coded .expr 0 (' ' :: '\x7d' :: '\x7d' :: rest) [] .none rest := .blank rfl (.close rfl)
  have hclose : Coded .expr 2 ('\x7d' :: ')' :: ' ' :: '\x7d' :: '\x7d' :: rest)
      [.symbol .braceClose, .symbol .parenClose] .none rest :=
    .symbol rfl (.symbol (d := 0) rfl hend)
  have hprops := renderProps_spoken h 1 _ _ _ _ (endsWord_cons ⟨rfl, by decide⟩) hclose
  have hinner : callInner name props ++ ')' :: ' ' :: '\x7d' :: '\x7d' :: rest = '"' :: (name.toList ++ '"' :: ',' ::
      ' ' :: '\x7b' :: (renderProps props ++ '\x7d' :: ')' :: ' ' :: '\x7d' :: '\x7d' :: rest)) := by
    simp [callInner]
  rw [callTag_inner, hinner]
  exact .blank rfl (call_spoken hname hprops)

end SecureLayout.Template
