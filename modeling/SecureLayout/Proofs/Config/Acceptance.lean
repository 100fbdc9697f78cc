import Mathlib.Data.List.TakeWhile
import Mathlib.Tactic.SplitIfs
import SecureLayout.Config.Startup

/-!
Which configurations start a relay. Main statements: `compile_of_read`, an accepted configuration makes an application
unless its list of components holds a name of blanks alone, and then it is refused with one message;
`accepted_then_refused`, such a name passes the checks of the file, which look into the other list of the section only.
-/

namespace SecureLayout

namespace Text

theorem dropTail_eq_nil_iff {p : Char → Bool} {s : List Char} : dropTail p s = [] ↔ ∀ c ∈ s, p c = true := by
  rw [dropTail, List.reverse_eq_nil_iff, List.dropWhile_eq_nil_iff]
  simp

theorem trim_eq_nil_iff {s : List Char} : trim s = [] ↔ ∀ c ∈ s, isBlank c = true := by
  rw [trim, trimEnd, dropTail_eq_nil_iff, trimStart]
  constructor
  · intro h c hc
    rw [← List.takeWhile_append_dropWhile (p := isBlank) (l := s), List.mem_append] at hc
    rcases hc with hc | hc
    · exact List.mem_takeWhile_imp hc
    · exact h c hc
  · intro h c hc
    exact h c ((List.dropWhile_sublist isBlank).subset hc)

end Text

namespace Policy.ComponentAllowlist

theorem trimmed_eq_empty_iff {name : String} : trimmed name = "" ↔ Text.isBlankText name = true := by
  rw [Text.isBlankText, List.all_eq_true, ← Text.trim_eq_nil_iff, trimmed, ← String.toList_eq_nil_iff, String.toList_ofList]

/-- A list makes an allowlist unless a name is blank; an empty one always does. -/
theorem compile_eq (names : List String) : compile names =
    if names.any Text.isBlankText then .error (.badRequest "allowed_components entry must not be blank")
    else .ok ⟨if names.isEmpty then none else some (names.map trimmed)⟩ := by
  have hblank : (names.map trimmed).contains "" = names.any Text.isBlankText := by
    rw [Bool.eq_iff_iff, List.contains_iff_mem, List.mem_map, List.any_eq_true]
    simp only [trimmed_eq_empty_iff]
  unfold compile
  cases names with
  | nil => rfl
  | cons name names =>
    dsimp only
    rw [hblank]
    rfl

end Policy.ComponentAllowlist

namespace SecurityPolicy

open Policy

/-- Settings that pass their own checks are refused for a blank component only. -/
theorem compile_of_validate {s : Settings} (h : s.validate = .ok ()) :
    (∃ p, compile s = .ok p ∧ ∀ name ∈ s.allowedComponents, Text.isBlankText name = false) ∨
      (compile s = .error (.badRequest "allowed_components entry must not be blank") ∧
        ∃ name ∈ s.allowedComponents, Text.isBlankText name = true) := by
  obtain ⟨pattern, hpattern⟩ : ∃ pattern, Pattern.ofText? s.bindingPathPattern = some pattern := by
    rw [← Option.isSome_iff_exists, ← Option.not_isNone, Bool.not_eq_true']
    unfold Settings.validate at h
    split_ifs at h with _ _ hnone
    exact Bool.eq_false_iff.2 hnone
  have hcompile : compile s = ComponentAllowlist.compile s.allowedComponents >>= fun components =>
      .ok { components, roots := .compile s.expressionAllowlist, bindingPath := pattern, maxDepth := s.maxDepth,
            maxIterations := s.maxIterations } := by
    unfold compile
    rw [h, hpattern]
    rfl
  rw [hcompile, ComponentAllowlist.compile_eq]
  by_cases hblank : s.allowedComponents.any Text.isBlankText = true
  · rw [if_pos hblank]
    exact .inr ⟨rfl, List.any_eq_true.1 hblank⟩
  · rw [if_neg hblank]
    refine .inl ⟨_, rfl, fun name hname => ?_⟩
    rw [List.any_eq_true, not_exists] at hblank
    exact Bool.eq_false_iff.2 fun hname' => hblank name ⟨hname, hname'⟩

end SecurityPolicy

namespace Config

theorem LayoutConfig.validate_security {c : LayoutConfig} (h : c.validate = .ok ()) : c.security.validate = .ok () := by
  unfold LayoutConfig.validate at h
  by_cases hversion : (c.version != 1) = true
  · rw [if_pos hversion] at h
    cases h
  · rw [if_neg hversion] at h
    cases hserver : c.server.validate with
    | error e =>
      rw [hserver] at h
      cases h
    | ok _ =>
      rw [hserver] at h
      exact h

namespace Application

/-- A configuration that was accepted makes an application with a policy of its settings, unless a name in its list of
components is blank; then the relay does not start. -/
theorem compile_of_read {source : String} {c : LayoutConfig} (h : LayoutConfig.read source = .ok c) :
    (∃ a, compile c = .ok a ∧ a.config = c ∧ SecurityPolicy.compile c.security = .ok a.policy ∧
        ∀ name ∈ c.security.allowedComponents, Text.isBlankText name = false) ∨
      (compile c = .error (.badRequest
          "security policy compile failed: bad request: allowed_components entry must not be blank") ∧
        ∃ name ∈ c.security.allowedComponents, Text.isBlankText name = true) := by
  have hvalid := LayoutConfig.validate_security (LayoutConfig.validate_of_read h)
  unfold compile
  rcases SecurityPolicy.compile_of_validate hvalid with ⟨p, hp, hnames⟩ | ⟨hp, hname⟩
  · rw [hp]
    exact .inl ⟨⟨c, p⟩, rfl, rfl, rfl, hnames⟩
  · rw [hp]
    exact .inr ⟨rfl, hname⟩

/-- A file with a blank name in its list of components is accepted, and then makes no application; with the same name in
the list of roots it is not accepted. -/
theorem accepted_then_refused : ∃ c,
    LayoutConfig.read "version: 1\nsecurity:\n  allowed_components: [\" \"]\n" = .ok c ∧
      compile c = .error (.badRequest
        "security policy compile failed: bad request: allowed_components entry must not be blank") ∧
      (LayoutConfig.read "version: 1\nsecurity:\n  expression_allowlist: [\" \"]\n").toOption = none := by
  let c : LayoutConfig := { version := 1, security := { allowedComponents := [" "] } }
  have hread : (LayoutConfig.read "version: 1\nsecurity:\n  allowed_components: [\" \"]\n").toOption = some c := by
    decide +kernel
  cases hsource : LayoutConfig.read "version: 1\nsecurity:\n  allowed_components: [\" \"]\n" with
  | error e =>
    rw [hsource] at hread
    cases hread
  | ok c' =>
    rw [hsource] at hread
    cases hread
    refine ⟨c, rfl, ?_, by decide +kernel⟩
    rcases compile_of_read hsource with ⟨-, -, -, -, hnames⟩ | ⟨hrefused, -⟩
    · exact absurd (hnames " " (List.mem_singleton.2 rfl)) (by decide)
    · exact hrefused

end Application

end Config

end SecureLayout
