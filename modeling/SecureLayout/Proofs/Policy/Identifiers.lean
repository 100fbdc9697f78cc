import Mathlib
import SecureLayout.Proofs.Pattern.Spans
import SecureLayout.Proofs.Policy.Context
import SecureLayout.Proofs.Text.Splitting

/-!
The default form of a binding path. Main statement: with it, a path passes just when the pieces between its dots are
ASCII identifiers, none of them empty, and the first is an allowed root; so it holds of any text, whatever line ends,
letters of other scripts and dots it has.
-/

namespace SecureLayout.Policy

open Computability Pattern

/-- Characters that a name may begin with. -/
def nameStart : CharSet :=
  .union (.range 'A' 'Z') (.union (.range 'a' 'z') (.range '_' '_'))

def namePart : CharSet :=
  .union (.range 'A' 'Z') (.union (.range 'a' 'z') (.union (.range '0' '9') (.range '_' '_')))

def nameForm : Pattern :=
  .seq (.one nameStart) (.rounds (.one namePart) 0 none)

/-- What the default setting writes down: one name and further ones, each behind a dot. -/
def bindingForm : Pattern :=
  .seq (.edge .textStart) (.seq (.one nameStart) (.seq (.rounds (.one namePart) 0 none)
    (.seq (.rounds (.seq (.one (.range '.' '.')) nameForm) 0 none) (.edge .textEnd))))

theorem ofText?_default : Pattern.ofText? ({} : Settings).bindingPathPattern = some bindingForm := by
  decide +kernel

/-! ### Names -/

/-- The words of the form of a name. -/
def names : Language Char :=
  letters nameStart * (letters namePart)∗

/-- Words of names behind dots. -/
def dotted : Language Char :=
  letters (.range '.' '.') * names

variable {c : Char} {s : List Char}

theorem eq_iff_toNat {d : Char} : (c == d) = decide (c.toNat = d.toNat) := by
  rw [Bool.eq_iff_iff]
  simp [← Char.toNat_inj]

theorem contains_nameStart (c : Char) : nameStart.contains c = Text.isNameStart c := by
  have hval : c.val.toNat = c.toNat := rfl
  rw [Bool.eq_iff_iff]
  simp [nameStart, CharSet.contains, CharSet.inRange, Text.isNameStart, Char.isAlpha, Char.isUpper, Char.isLower,
    eq_iff_toNat, UInt32.le_iff_toNat_le]
  omega

theorem contains_namePart (c : Char) : namePart.contains c = Text.isNamePart c := by
  have hval : c.val.toNat = c.toNat := rfl
  rw [Bool.eq_iff_iff]
  simp [namePart, CharSet.contains, CharSet.inRange, Text.isNamePart, Char.isAlphanum, Char.isAlpha, Char.isUpper,
    Char.isLower, Char.isDigit, eq_iff_toNat, UInt32.le_iff_toNat_le]
  omega

theorem contains_dot : (CharSet.range '.' '.').contains c = true ↔ c = '.' := by
  rw [← Char.toNat_inj]
  simp [CharSet.contains, CharSet.inRange]
  omega

/-- A name is an ASCII identifier. -/
theorem mem_names : s ∈ names ↔ Text.isIdentifier (String.ofList s) = true := by
  rw [names, Language.mem_mul, Text.isIdentifier, String.toList_ofList]
  constructor
  · rintro ⟨_, ⟨c, hc, rfl⟩, r, hr, rfl⟩
    have hparts := (mem_kstar_letters r).1 hr
    simp only [contains_nameStart, contains_namePart] at hc hparts
    simpa [hc] using hparts
  · intro h
    cases s with
    | nil => cases h
    | cons c r =>
      obtain ⟨hc, hparts⟩ := Bool.and_eq_true_iff.1 h
      rw [← contains_nameStart] at hc
      refine ⟨[c], ⟨c, hc, rfl⟩, r, (mem_kstar_letters r).2 fun d hd => ?_, rfl⟩
      rw [contains_namePart]
      exact List.all_eq_true.1 hparts d hd

theorem dot_not_mem (h : s ∈ names) : '.' ∉ s := by
  rw [mem_names, Text.isIdentifier, String.toList_ofList] at h
  cases s with
  | nil => exact List.not_mem_nil
  | cons c r =>
    obtain ⟨hc, hparts⟩ := Bool.and_eq_true_iff.1 h
    rintro (_ | ⟨_, hr⟩)
    · cases hc
    · cases List.all_eq_true.1 hparts '.' hr

theorem mem_dotted : s ∈ dotted ↔ ∃ n ∈ names, s = '.' :: n := by
  rw [dotted, Language.mem_mul]
  constructor
  · rintro ⟨_, ⟨c, hc, rfl⟩, n, hn, rfl⟩
    exact ⟨n, hn, by rw [contains_dot.1 hc]; rfl⟩
  · rintro ⟨n, hn, rfl⟩
    exact ⟨['.'], ⟨'.', contains_dot.2 rfl, rfl⟩, n, hn, rfl⟩

/-! ### Names between dots -/

theorem exists_map_of_dotted {ws : List (List Char)} (h : ∀ w ∈ ws, w ∈ dotted) :
    ∃ ns : List (List Char), (∀ n ∈ ns, n ∈ names) ∧ ws = ns.map ('.' :: ·) := by
  induction ws with
  | nil => exact ⟨[], nofun, rfl⟩
  | cons w ws ih =>
    obtain ⟨hw, hws⟩ := List.forall_mem_cons.1 h
    obtain ⟨n, hn, rfl⟩ := mem_dotted.1 hw
    obtain ⟨ns, hns, rfl⟩ := ih hws
    exact ⟨n :: ns, List.forall_mem_cons.2 ⟨hn, hns⟩, rfl⟩

theorem mem_path_iff : s ∈ names * dotted∗ ↔ ∀ piece ∈ Text.splitOnChar '.' s, piece ∈ names := by
  rw [Language.mem_mul]
  constructor
  · rintro ⟨n, hn, r, hr, rfl⟩
    obtain ⟨ws, rfl, hws⟩ := Language.mem_kstar.1 hr
    obtain ⟨ns, hns, rfl⟩ := exists_map_of_dotted hws
    have hall : ∀ m ∈ n :: ns, m ∈ names := List.forall_mem_cons.2 ⟨hn, hns⟩
    rw [← List.flatMap_def, Text.splitOnChar_flatMap fun m hm => dot_not_mem (hall m hm)]
    exact hall
  · intro hall
    obtain ⟨n, ns, hsplit, hs⟩ := Text.splitOnChar_join '.' s
    rw [hsplit] at hall
    obtain ⟨hn, hns⟩ := List.forall_mem_cons.1 hall
    refine ⟨n, hn, ns.flatMap ('.' :: ·), ?_, hs.symm⟩
    rw [List.flatMap_def]
    refine Language.join_mem_kstar fun w hw => ?_
    obtain ⟨m, hm, rfl⟩ := List.mem_map.1 hw
    exact mem_dotted.2 ⟨m, hns m hm, rfl⟩

/-- The default form is matched from the first character to the last by names between dots. -/
theorem matches_bindingForm (s : List Char) :
    bindingForm.Matches [] s [] ↔ ∀ piece ∈ Text.splitOnChar '.' s, piece ∈ names := by
  have hparts := spells_many (spells_one namePart)
  have hdotted : (seq (one (.range '.' '.')) nameForm).Spells dotted :=
    spells_seq (spells_one _) (spells_seq (spells_one _) hparts)
  have hform := spellsRest_seq (spells_one nameStart)
    (spellsRest_seq hparts (spellsRest_seq (spells_many hdotted) spellsRest_textEnd))
  rw [bindingForm, matches_textStart_iff hform, mul_one, ← mul_assoc, ← mem_path_iff]
  rfl

end SecureLayout.Policy

namespace SecureLayout

open Policy

theorem Expression.head?_segments (e : Expression) : e.segments.head? = some e.root := by
  rw [segments, List.head?_map, Text.head?_splitOnChar]
  rfl

namespace SecurityPolicy

/-- Settings that are in order make a policy, if no listed component is blank. -/
theorem exists_compile {s : Settings} {components : ComponentAllowlist} (hs : s.validate = .ok ())
    (hcomponents : ComponentAllowlist.compile s.allowedComponents = .ok components) {form : Pattern}
    (hform : Pattern.ofText? s.bindingPathPattern = some form) : ∃ p, compile s = .ok p := by
  refine ⟨⟨components, .compile s.expressionAllowlist, form, s.maxDepth, s.maxIterations⟩, ?_⟩
  simp only [compile, hs, hform, hcomponents]
  rfl

/-- Settings with the default form of binding paths that are in order make a policy, and it lets a path pass just when
every piece of it between dots is an ASCII identifier and the first one is listed. -/
theorem validateExpression_names {s : Settings} {components : ComponentAllowlist}
    (hdefault : s.bindingPathPattern = ({} : Settings).bindingPathPattern) (hs : s.validate = .ok ())
    (hcomponents : ComponentAllowlist.compile s.allowedComponents = .ok components) :
    ∃ p, compile s = .ok p ∧ ∀ path, p.validateExpression path = true ↔
      (∀ piece ∈ Expression.segments ⟨path⟩, Text.isIdentifier piece = true) ∧
        ∃ root ∈ (Expression.segments ⟨path⟩).head?, root ∈ s.expressionAllowlist := by
  have hform : Pattern.ofText? s.bindingPathPattern = some bindingForm := hdefault ▸ ofText?_default
  obtain ⟨p, hp⟩ := exists_compile hs hcomponents hform
  refine ⟨p, hp, fun path => ?_⟩
  rw [validateExpression_iff_whole hp hform rfl, matches_bindingForm, Expression.head?_segments, and_comm]
  simp [Expression.segments, mem_names]

theorem validateExpression_names_lineEnd :
    let s : Settings := { expressionAllowlist := ["input", "_"] }
    s.validate = .ok () ∧ ComponentAllowlist.compile s.allowedComponents = .ok .allowAll ∧
      ∃ p, compile s = .ok p ∧ p.validateExpression "input.a_1" = true ∧
        p.validateExpression "input.a_1\n" = false ∧ p.validateExpression "_..x" = false := by
  intro s
  have hs : s.validate = .ok () := by decide +kernel
  obtain ⟨p, hp, hiff⟩ := validateExpression_names (s := s) rfl hs rfl
  have hline : ¬∀ piece ∈ Expression.segments ⟨"input.a_1\n"⟩, Text.isIdentifier piece = true := by
    decide +kernel
  have hempty : ¬∀ piece ∈ Expression.segments ⟨"_..x"⟩, Text.isIdentifier piece = true := by decide +kernel
  refine ⟨hs, rfl, p, hp, (hiff _).2 ⟨by decide +kernel, "input", by decide +kernel, by decide⟩, ?_, ?_⟩
  · exact Bool.eq_false_iff.2 fun h => hline ((hiff _).1 h).1
  · exact Bool.eq_false_iff.2 fun h => hempty ((hiff _).1 h).1

end SecurityPolicy

end SecureLayout
