import SecureLayout.Proofs.Json.Rendering
import SecureLayout.Proofs.Template.Calls
import SecureLayout.Proofs.Text.Splitting

/-!
What a layout may write as the value of a prop, and what that denotes on some data. Main statement:
`Denotes.propSource`, the value is read as a literal or a path, and what goes into the call in its place denotes the
same.
-/

namespace SecureLayout.Template

open Directive Lexer

/-! ### Quoted texts -/

/-- How a character of a text is written between quotes. -/
def quotedChar (q c : Char) : List Char :=
  if c = '\\' ∨ c = q then ['\\', c] else [c]

/-- What stands between the quotes of a text. -/
def quotedBody (q : Char) (t : List Char) : List Char :=
  t.flatMap (quotedChar q)

/-- A text between quotes: a backslash in front of every backslash and of every quote like them. -/
def inQuotes (q : Char) (t : List Char) : List Char :=
  q :: (quotedBody q t ++ [q])

variable {q : Char} {t : List Char}

theorem stringBody?_quotedBody (hq : q ≠ '\\') (t r : List Char) :
    stringBody? q false (quotedBody q t ++ q :: r) = some (quotedBody q t, r) := by
  induction t with
  | nil =>
    change stringBody? q false (q :: r) = _
    rw [stringBody?, if_neg hq, if_pos rfl]
    rfl
  | cons c t ih =>
    have hbody : quotedBody q (c :: t) = quotedChar q c ++ quotedBody q t := rfl
    rw [hbody, List.append_assoc]
    unfold quotedChar
    split
    · rw [List.cons_append, List.cons_append, List.nil_append, stringBody?, if_pos rfl, stringBody?, ih]
      rfl
    · next hc =>
      obtain ⟨hslash, hquote⟩ := not_or.1 hc
      rw [List.cons_append, List.nil_append, stringBody?, if_neg hslash, if_neg hquote, ih]
      rfl

/-- The reader of directives gets the text back. -/
theorem unescaped?_quotedBody (hq : q = '"' ∨ q = '\'') (t : List Char) :
    Directive.unescaped? q (quotedBody q t ++ [q]) = some t := by
  induction t with
  | nil => rcases hq with rfl | rfl <;> rfl
  | cons c t ih =>
    have hbody : quotedBody q (c :: t) = quotedChar q c ++ quotedBody q t := rfl
    rw [hbody, List.append_assoc]
    unfold quotedChar
    split
    · next hc =>
      have hesc : escaped? c = some c := by
        rcases hc with rfl | rfl
        · rfl
        · rcases hq with rfl | rfl <;> rfl
      rw [List.cons_append, List.cons_append, List.nil_append, Directive.unescaped?, hesc, ih]
      rfl
    · next hc =>
      obtain ⟨hslash, hquote⟩ := not_or.1 hc
      rw [List.cons_append, List.nil_append, Directive.unescaped?.eq_def]
      split
      · cases ‹_ = _›
      · next h => exact absurd (List.cons.inj h).1 hslash
      · next h => exact absurd (List.cons.inj h).1 hslash
      · next h =>
        obtain ⟨rfl, rfl⟩ := List.cons.inj h
        rw [if_neg hquote, ih]
        rfl

/-! ### Paths -/

/-- Words that are no names wherever an expression begins with them. -/
def keywords : List String :=
  ["not", "true", "True", "false", "False", "none", "None"]

/-- A name that may stand in a path or before the value of a prop. -/
structure IsPlainName (n : String) : Prop where
  identifier : Text.isIdentifier n = true
  isOpen : IsOpenName n

/-- The number that decimal digits stand for. -/
def decimal (digits : List Char) : Nat :=
  Nat.ofDigitChars 10 digits 0

/-- Where a path of names and positions leads to in some data. Positions are words of 64 bits with a sign. -/
inductive Resolves (data : Json.Value) : List Char → Json.Value → Prop
  | root {n : String} {v : Json.Value} (hn : IsPlainName n) (hkey : n ∉ keywords) (h : data.member? n = some v) :
    Resolves data n.toList v
  | member {path : List Char} {n : String} {v w : Json.Value} (h : Resolves data path v) (hn : IsPlainName n)
    (hw : v.member? n = some w) : Resolves data (path ++ '.' :: n.toList) w
  | item {path digits : List Char} {vs : List Json.Value} {w : Json.Value} (h : Resolves data path (.list vs))
    (hdigits : isDigits digits = true) (hword : decimal digits < Numeric.twoTo 63)
    (hw : vs[decimal digits]? = some w) : Resolves data (path ++ '[' :: (digits ++ [']'])) w

/-! ### Values of props -/

/-- What the text of a prop denotes under a policy, on the data that the policy lets through. -/
inductive Denotes (p : SecurityPolicy) (data : Json.Value) : List Char → Json.Value → Prop
  | text {q : Char} (hq : q = '"' ∨ q = '\'') (t : String) : Denotes p data (inQuotes q t.toList) (.text t)
  | integer {digits : List Char} (hdigits : isDigits digits = true) (hword : decimal digits < Numeric.twoTo 64) :
    Denotes p data digits (.ofNat (decimal digits))
  | negative {digits : List Char} (hdigits : isDigits digits = true) (hword : decimal digits ≤ Numeric.twoTo 63) :
    Denotes p data ('-' :: digits) (.ofInt (-decimal digits))
  | bool {w : String} {b : Bool} (hw : (w, b) ∈ [("true", true), ("True", true), ("false", false), ("False", false)]) :
    Denotes p data w.toList (.bool b)
  | null {w : String} (hw : w ∈ ["none", "None", "null"]) : Denotes p data w.toList .null
  | binding {path : List Char} {v : Json.Value} (h : Resolves data path v) (hnull : path ≠ "null".toList)
    (hpermitted : p.validateExpression (String.ofList path) = true) (hv : v.Fits 100) : Denotes p data path v

/-- What the text of a value in a call denotes on some data. -/
inductive Means (data : Json.Value) : List Char → Json.Value → Prop
  | text (t : String) : Means data (Json.renderText t.toList) (.text t)
  | integer {digits : List Char} (hdigits : isDigits digits = true) (hword : decimal digits < Numeric.twoTo 64) :
    Means data digits (.ofNat (decimal digits))
  | negative {digits : List Char} (hdigits : isDigits digits = true) (hword : decimal digits ≤ Numeric.twoTo 63) :
    Means data ('-' :: digits) (.ofInt (-decimal digits))
  | bool (b : Bool) : Means data (if b then "true" else "false").toList (.bool b)
  | null : Means data "none".toList .null
  | path {path : List Char} {v : Json.Value} (h : Resolves data path v) (hv : v.Fits 100) : Means data path v

variable {p : SecurityPolicy} {data v : Json.Value} {source path : List Char}

theorem IsPlainName.chars {n : String} (h : IsPlainName n) :
    ∃ c w, n.toList = c :: w ∧ Text.isNameStart c = true ∧ ∀ a ∈ w, Text.isNamePart a = true :=
  isIdentifier_chars h.identifier

theorem Resolves.head (h : Resolves data path v) : ∃ c w, path = c :: w ∧ Text.isNameStart c = true := by
  induction h with
  | root hn =>
    obtain ⟨c, w, hcs, hc, -⟩ := hn.chars
    exact ⟨c, w, hcs, hc⟩
  | member h hn hw ih =>
    obtain ⟨c, w, rfl, hc⟩ := ih
    exact ⟨c, _, List.cons_append, hc⟩
  | item h hdigits hword hw ih =>
    obtain ⟨c, w, rfl, hc⟩ := ih
    exact ⟨c, _, List.cons_append, hc⟩

theorem Resolves.not_keyword (h : Resolves data path v) : String.ofList path ∉ keywords := by
  have hplain : ∀ w ∈ keywords, '.' ∉ w.toList ∧ '[' ∉ w.toList := List.all_iff_forall_prop.1 (by decide)
  cases h with
  | root hn hkey h => rwa [String.ofList_toList]
  | member h hn hw =>
    intro hmem
    have hdot := (hplain _ hmem).1
    simp at hdot
  | item h hdigits hword hw =>
    intro hmem
    have hbracket := (hplain _ hmem).2
    simp at hbracket

/-! ### Paths are binding paths -/

theorem splitAt?_append {c : Char} {a : List Char} (ha : c ∉ a) (b : List Char) :
    splitAt? c (a ++ c :: b) = some (a, b) := by
  have hne : ∀ x ∈ a, (x != c) = true := fun x hx => bne_iff_ne.2 fun h => ha (h ▸ hx)
  unfold splitAt?
  rw [List.dropWhile_append_of_pos hne, List.takeWhile_append_of_pos hne, List.dropWhile_cons_of_neg (by simp),
    List.takeWhile_cons_of_neg (by simp), List.append_nil]

theorem splitAt?_eq_none {c : Char} {a : List Char} (ha : c ∉ a) : splitAt? c a = none := by
  have hne : ∀ x ∈ a, (x != c) = true := fun x hx => bne_iff_ne.2 fun h => ha (h ▸ hx)
  have hdrop : a.dropWhile (· != c) = [] := List.dropWhile_eq_nil_iff.2 hne
  rw [splitAt?, hdrop]

theorem areIndices_succ {fuel : Nat} {w : List Char} (h : areIndices fuel w = true) :
    areIndices (fuel + 1) w = true := by
  induction fuel generalizing w with
  | zero =>
    cases w with
    | nil => rfl
    | cons c w => cases h
  | succ fuel ih =>
    unfold areIndices at h ⊢
    split at h
    · rfl
    · cases ‹_ = _›
    · next heq =>
      cases heq
      split at h
      · rw [Bool.and_eq_true] at h ⊢
        exact ⟨h.1, ih h.2⟩
      · cases h
    · cases h

theorem areIndices_append {fuel k : Nat} {u w : List Char} (hu : areIndices fuel u = true)
    (hw : areIndices k w = true) : areIndices (fuel + k) (u ++ w) = true := by
  induction fuel generalizing u with
  | zero =>
    cases u with
    | nil => rwa [Nat.zero_add]
    | cons c u => cases hu
  | succ fuel ih =>
    rw [Nat.succ_add]
    unfold areIndices at hu
    split at hu
    · exact areIndices_succ (ih (by unfold areIndices; cases fuel <;> rfl))
    · cases ‹_ = _›
    · next heq =>
      cases heq
      split at hu
      · next digits rest hsplit =>
        rw [Bool.and_eq_true] at hu
        have hfree : ']' ∉ digits := fun hmem => by
          have hdigit := (isDigits_chars hu.1).2 _ hmem
          cases hdigit
        rw [splitAt?_eq_some hsplit, List.cons_append, List.append_assoc, List.cons_append, areIndices,
          splitAt?_append hfree, Bool.and_eq_true]
        exact ⟨hu.1, ih hu.2⟩
      · cases hu
    · cases hu

/-- A step may go on with a position. -/
theorem isPathStep_item {step digits : List Char} (h : isPathStep step = true) (hdigits : isDigits digits = true) :
    isPathStep (step ++ '[' :: (digits ++ [']'])) = true := by
  cases step with
  | nil => cases h
  | cons c r =>
    simp only [isPathStep, Bool.and_eq_true] at h
    have hfree : ']' ∉ digits := fun hmem => by
      have hdigit := (isDigits_chars hdigits).2 _ hmem
      cases hdigit
    have hindex : areIndices ('[' :: (digits ++ [']'])).length ('[' :: (digits ++ [']'])) = true := by
      rw [List.length_cons, areIndices, splitAt?_append hfree, Bool.and_eq_true]
      exact ⟨hdigits, by unfold areIndices; cases (digits ++ [']']).length <;> rfl⟩
    have hdrop : (r ++ '[' :: (digits ++ [']'])).dropWhile Text.isNamePart =
        r.dropWhile Text.isNamePart ++ '[' :: (digits ++ [']']) := by
      rw [List.dropWhile_append]
      split
      · next hnil => rw [List.isEmpty_iff.1 hnil]; rfl
      · rfl
    simp only [List.cons_append, isPathStep, hdrop, Bool.and_eq_true]
    rw [List.length_append]
    exact ⟨h.1, areIndices_append h.2 hindex⟩

theorem IsPlainName.isPathStep {n : String} (h : IsPlainName n) : isPathStep n.toList = true := by
  obtain ⟨c, w, hcs, hc, hw⟩ := h.chars
  have hdrop : w.dropWhile Text.isNamePart = [] := List.dropWhile_eq_nil_iff.2 hw
  rw [hcs, Directive.isPathStep, hdrop, hc]
  rfl

theorem IsPlainName.free {n : String} (h : IsPlainName n) {c : Char} (hc : Text.isNamePart c = false) :
    c ∉ n.toList := by
  obtain ⟨a, w, hcs, ha, hw⟩ := h.chars
  rw [hcs]
  intro hmem
  have hpart : Text.isNamePart c = true := by
    rcases List.mem_cons.1 hmem with rfl | hmem
    · exact isNamePart_of_isNameStart ha
    · exact hw c hmem
  rw [hc] at hpart
  cases hpart

theorem Resolves.isBindingPath (h : Resolves data path v) : isBindingPath path = true := by
  have hname {n : String} (hn : IsPlainName n) : Text.splitOnChar '.' n.toList = [n.toList] := by
    obtain ⟨ps, last, hnil, hsplit⟩ := Text.splitOnChar_append_free (hn.free (c := '.') rfl) []
    cases ps with
    | nil =>
      cases hnil
      exact hsplit
    | cons x ps => cases ps <;> cases hnil
  induction h with
  | root hn => rw [Directive.isBindingPath, hname hn, List.all_cons, hn.isPathStep]; rfl
  | member h hn hw ih =>
    rw [Directive.isBindingPath] at ih ⊢
    rw [Text.splitOnChar_append_sep, List.all_append, ih, hname hn, List.all_cons, hn.isPathStep]
    rfl
  | @item path digits vs w h hdigits hword hw ih =>
    have hfree : '.' ∉ '[' :: (digits ++ [']']) := by
      intro hmem
      simp only [List.mem_cons, List.mem_append, List.not_mem_nil, or_false] at hmem
      rcases hmem with hmem | hmem | hmem
      · cases hmem
      · have hdigit := (isDigits_chars hdigits).2 _ hmem
        cases hdigit
      · cases hmem
    obtain ⟨ps, last, hsplit, hsplit'⟩ := Text.splitOnChar_append_free hfree path
    rw [Directive.isBindingPath, hsplit, List.all_append, Bool.and_eq_true] at ih
    rw [Directive.isBindingPath, hsplit', List.all_append, Bool.and_eq_true]
    refine ⟨ih.1, ?_⟩
    have hlast : isPathStep last = true := by simpa using ih.2
    simpa using isPathStep_item hlast hdigits

/-! ### Values are read -/

theorem quote_iff {c : Char} : (decide (c = '"') || decide (c = '\'')) = true ↔ c = '"' ∨ c = '\'' := by
  simp

theorem ne_quote_of_isNamePart {c : Char} (h : Text.isNamePart c = true) : ¬(c = '"' ∨ c = '\'') := by
  rintro (rfl | rfl) <;> cases h

theorem isNumber_of_isDigits {digits : List Char} (h : isDigits digits = true) :
    isNumber digits = true ∧ isNumber ('-' :: digits) = true := by
  obtain ⟨hne, hdigits⟩ := isDigits_chars h
  obtain ⟨c, r, rfl⟩ := List.exists_cons_of_ne_nil hne
  have hpoint : '.' ∉ c :: r := fun hmem => by
    have hdigit := hdigits _ hmem
    cases hdigit
  have hsign : c ≠ '-' := by
    rintro rfl
    have hdigit := hdigits _ List.mem_cons_self
    cases hdigit
  constructor
  · unfold isNumber
    split
    · next heq => exact absurd (List.cons.inj heq).1 hsign
    · dsimp only
      rw [splitAt?_eq_none hpoint]
      exact h
  · unfold isNumber
    simp only [splitAt?_eq_none hpoint]
    exact h

/-- What begins like a name is no number. -/
theorem isNumber_of_isNameStart {c : Char} {w : List Char} (hc : Text.isNameStart c = true) :
    isNumber (c :: w) = false := by
  have hdigit : c.isDigit = false := by
    cases hd : c.isDigit with
    | false => rfl
    | true =>
      rw [not_isNameStart_of_isDigit hd] at hc
      cases hc
  unfold isNumber
  split
  · next heq =>
    obtain ⟨rfl, -⟩ := List.cons.inj heq
    cases hc
  · dsimp only
    split
    · rw [isDigits, List.all_cons, hdigit]
      rfl
    · next whole fraction hsplit =>
      have hwhole : isDigits whole = false := by
        have hs := splitAt?_eq_some hsplit
        cases whole with
        | nil => rfl
        | cons a u =>
          obtain ⟨rfl, -⟩ := List.cons.inj hs
          rw [isDigits, List.all_cons, hdigit]
          rfl
      rw [hwhole]
      rfl

theorem propSource_of_quoted (hq : q = '"' ∨ q = '\'') (t : List Char) :
    propSource (inQuotes q t) = .ok (.literal (Json.renderText t)) := by
  rw [inQuotes, propSource, if_pos (quote_iff.2 hq), unescaped?_quotedBody hq]

theorem propSource_of_number {c : Char} {w : List Char} (hc : ¬(c = '"' ∨ c = '\'')) (h : isNumber (c :: w) = true) :
    propSource (c :: w) = .ok (.literal (c :: w)) := by
  rw [propSource, if_neg (mt quote_iff.1 hc), if_pos h]

theorem Resolves.propSource (h : Resolves data path v) (hnull : path ≠ "null".toList) :
    propSource path = .ok (.binding path) := by
  have hpath := h.isBindingPath
  have hkey := h.not_keyword
  obtain ⟨c, w, rfl, hc⟩ := h.head
  have hnull' : String.ofList (c :: w) ≠ "null" := fun he => hnull (by rw [← he, String.toList_ofList])
  rw [Directive.propSource, if_neg (mt quote_iff.1 (ne_quote_of_isNamePart (isNamePart_of_isNameStart hc))),
    isNumber_of_isNameStart hc, if_neg Bool.false_ne_true]
  simp only [keywords, List.mem_cons, not_or] at hkey
  obtain ⟨-, h₁, h₂, h₃, h₄, h₅, h₆, -⟩ := hkey
  split
  all_goals first | contradiction | rw [if_pos hpath]

/-- The value of a prop is read, and a path among them is one that the policy permits. -/
theorem Denotes.propSource (h : Denotes p data source v) : ∃ src, propSource source = .ok src ∧
    Means data src.text v ∧ src.PermittedBy p := by
  cases h with
  | text hq t => exact ⟨_, propSource_of_quoted hq _, .text t, nofun⟩
  | integer hdigits hword =>
    obtain ⟨hne, hall⟩ := isDigits_chars hdigits
    obtain ⟨c, w, rfl⟩ := List.exists_cons_of_ne_nil hne
    have hc := ne_quote_of_isNamePart (isNamePart_of_isDigit (hall c List.mem_cons_self))
    exact ⟨_, propSource_of_number hc (isNumber_of_isDigits hdigits).1, .integer hdigits hword, nofun⟩
  | negative hdigits hword =>
    exact ⟨_, propSource_of_number (by decide) (isNumber_of_isDigits hdigits).2, .negative hdigits hword, nofun⟩
  | @bool w b hw =>
    have hread : ∀ e ∈ [("true", true), ("True", true), ("false", false), ("False", false)],
        Directive.propSource e.1.toList = .ok (.literal (if e.2 then "true" else "false").toList) :=
      List.all_iff_forall_prop.1 (by decide)
    exact ⟨_, hread _ hw, .bool b, nofun⟩
  | @null w hw =>
    have hread : ∀ w ∈ ["none", "None", "null"], Directive.propSource w.toList = .ok (.literal "none".toList) :=
      List.all_iff_forall_prop.1 (by decide)
    exact ⟨_, hread _ hw, .null, nofun⟩
  | binding h hnull hpermitted hv =>
    refine ⟨_, h.propSource hnull, .path h hv, ?_⟩
    rintro _ ⟨⟩
    exact hpermitted

end SecureLayout.Template
