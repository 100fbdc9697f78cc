import SecureLayout.Policy.Engine
import SecureLayout.Proofs.Entries
import SecureLayout.Proofs.Pattern.Spans
import SecureLayout.Template.Environment

/-!
What a policy lets a layout name and see. Main statements: `validateExpression_iff`, a binding path passes when its root
is allowed and the pattern matches some part of it, and `validateExpression_iff_whole` for patterns that name both edges
of the text, as the default one does; `validateExpression_partial`, a pattern that names none may match a path in part
only; the secure context holds the members under allowed roots as they are and nothing else, and renders of data that
agree on those are the same, down to the count of loop bodies.
-/

/-! ### Binding paths -/

namespace SecureLayout.SecurityPolicy

open Policy Pattern

theorem compile_bindingPath {s : Settings} {p : SecurityPolicy} (h : compile s = .ok p) :
    Pattern.ofText? s.bindingPathPattern = some p.bindingPath := by
  obtain ⟨hvalid, -⟩ := compile_ok h
  cases hpattern : Pattern.ofText? s.bindingPathPattern with
  | none =>
    simp only [compile, hvalid, hpattern] at h
    cases h
  | some pattern =>
    cases hnames : ComponentAllowlist.compile s.allowedComponents with
    | error e =>
      simp only [compile, hvalid, hpattern, hnames] at h
      cases h
    | ok components =>
      simp only [compile, hvalid, hpattern, hnames] at h
      cases h
      rfl

/-- Roots that are not refused are identifiers. -/
theorem isIdentifier_of_validate {s : Settings} (h : s.validate = .ok ()) {root : String}
    (hroot : root ∈ s.expressionAllowlist) : Text.isIdentifier root = true := by
  unfold Settings.validate at h
  split_ifs at h
  unfold Settings.validateRoots at h
  split at h
  · next hnone => simpa using List.find?_eq_none.1 hnone root hroot
  · cases h

theorem validateExpression_eq (p : SecurityPolicy) (path : String) :
    p.validateExpression path = (p.roots.contains (Expression.root ⟨path⟩) && p.bindingPath.isMatch path) := by
  unfold validateExpression checkExpression
  cases p.roots.contains (Expression.root ⟨path⟩) <;> cases p.bindingPath.isMatch path <;> rfl

/-- A path passes when its root is listed and some part of it, not always all, has the form of the pattern. -/
theorem validateExpression_iff {s : Settings} {p : SecurityPolicy} (h : compile s = .ok p) (path : String) :
    ∃ form, Pattern.ofText? s.bindingPathPattern = some form ∧
      (p.validateExpression path = true ↔ Expression.root ⟨path⟩ ∈ s.expressionAllowlist ∧
        ∃ before part after, path.toList = before ++ part ++ after ∧ form.Matches before part after) := by
  obtain ⟨-, hroots, -, -⟩ := compile_ok h
  refine ⟨p.bindingPath, compile_bindingPath h, ?_⟩
  rw [validateExpression_eq, Bool.and_eq_true, hroots, RootAllowlist.contains_compile, isMatch_iff]

/-- Where the pattern names both edges of the text, all of a path has its form. -/
theorem validateExpression_iff_whole {s : Settings} {p : SecurityPolicy} {form : Pattern} (h : compile s = .ok p)
    (hform : Pattern.ofText? s.bindingPathPattern = some form) (hedges : form.isAnchored = true) (path : String) :
    p.validateExpression path = true ↔
      Expression.root ⟨path⟩ ∈ s.expressionAllowlist ∧ form.Matches [] path.toList [] := by
  obtain ⟨-, hroots, -, -⟩ := compile_ok h
  have hp : form = p.bindingPath := Option.some.inj (hform.symm.trans (compile_bindingPath h))
  rw [validateExpression_eq, Bool.and_eq_true, hroots, RootAllowlist.contains_compile, ← hp,
    isMatch_eq_isWholeMatch hedges, isWholeMatch_iff]

example : (Pattern.ofText? ({} : Settings).bindingPathPattern).any isAnchored = true := by decide +kernel

/-- A pattern without edges lets through a path that it matches in part only. -/
theorem validateExpression_partial :
    ∃ s p form, compile s = .ok p ∧ Pattern.ofText? s.bindingPathPattern = some form ∧
      p.validateExpression "input.<b>" = true ∧ ¬form.Matches [] "input.<b>".toList [] := by
  refine ⟨{ bindingPathPattern := "[a-z]+" }, _, .rounds (.one (.range 'a' 'z')) 1 none, rfl, rfl,
    by decide +kernel, ?_⟩
  rw [← isWholeMatch_iff]
  decide +kernel

end SecureLayout.SecurityPolicy

/-! ### Contexts -/

namespace SecureLayout

open Json (Value)

namespace Entries

variable {α : Type}

theorem get?_filter {m : Entries α} (hm : Sorted m) (keep : String → Bool) (k : String) :
    get? k (m.filter fun e => keep e.1) = if keep k then get? k m else none := by
  refine Option.ext fun v => ?_
  rw [get?_eq_some_iff (hm.filter _)]
  split_ifs with hk
  · rw [get?_eq_some_iff hm]
    simp [hk]
  · simp [hk]

end Entries

namespace SecurityPolicy

variable {p : SecurityPolicy} {d e : Value}

theorem mem_secureContext (p : SecurityPolicy) (data : Value) (k : String) (v : Value) :
    (k, v) ∈ (p.secureContext data).members ↔ p.roots.contains k = true ∧ (k, v) ∈ data.members := by
  rw [members_secureContext, List.mem_filter, and_comm]

/-- Neither is an object, or both are and hold the same under each allowed root. -/
inductive Agree (p : SecurityPolicy) : Value → Value → Prop
  | bare {d e : Value} (hd : ∀ ms, d ≠ .object ms) (he : ∀ ms, e ≠ .object ms) : Agree p d e
  | objects {ms ns : Entries Value} (hms : Entries.Sorted ms) (hns : Entries.Sorted ns)
      (h : ∀ k, p.roots.contains k = true → Entries.get? k ms = Entries.get? k ns) : Agree p (.object ms) (.object ns)

theorem Agree.secureContext_eq (h : p.Agree d e) : p.secureContext d = p.secureContext e := by
  have hbare : ∀ v : Value, (∀ ms, v ≠ .object ms) → v.members = [] := by
    intro v hv
    cases v with
    | object ms => exact absurd rfl (hv ms)
    | _ => rfl
  cases h with
  | bare hd he => rw [secureContext, secureContext, hbare d hd, hbare e he]
  | @objects ms ns hms hns h =>
    refine congrArg Value.object (Entries.ext_get? (hms.filter _) (hns.filter _) fun k => ?_)
    rw [Value.members, Value.members, Entries.get?_filter hms, Entries.get?_filter hns]
    split_ifs with hk
    · exact h k hk
    · rfl

end SecurityPolicy

namespace TemplateEnvironment

variable {env : TemplateEnvironment} {d e : Value}

theorem world_eq (h : env.policy.Agree d e) : env.world d = env.world e := by
  rw [world, world, h.secureContext_eq]

theorem renderStmts_eq (h : env.policy.Agree d e) (name : String) (stmts : List Template.Stmt) :
    env.renderStmts name stmts d = env.renderStmts name stmts e := by
  rw [renderStmts, renderStmts, run, run, world_eq h]

theorem render_eq (h : env.policy.Agree d e) (name : String) : env.render name d = env.render name e := by
  unfold render
  split
  · exact renderStmts_eq h ..
  · rfl

theorem renderString_eq (h : env.policy.Agree d e) (source : String) :
    env.renderString source d = env.renderString source e := by
  unfold renderString
  split
  · rfl
  · split
    · rfl
    · exact renderStmts_eq h ..

end TemplateEnvironment

end SecureLayout
