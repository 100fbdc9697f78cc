import SecureLayout.Proofs.Template.Traces
import SecureLayout.Template.Environment

/-!
What layouts of text and directives render to. Main statements: a layout renders to its text with an error block or a
live placeholder in the place of every directive, or it fails because a path in a placeholder takes a step from nothing,
`renderString_layout`; so constants that are no larger than words never fail it, `renderString_constants`, and such a
path always does, `renderString_breaks`; every placeholder found in what it renders to is of a component that may be
placed, `allowed_of_found`.
-/

namespace SecureLayout.Template

open Directive Lexer

variable {p : SecurityPolicy} {registry : Option Component.Registry} {data : Json.Value} {head : List Char}
  {rs : List (Replacement × List Char)} {os : List (Trace × List Char)} {ds : List ((Tag × Directive) × List Char)}

/-! ### The line end at the end -/

theorem withoutLastLineEnd_append {a : List Char} (ha : EndsSolid a) (b : List Char) :
    withoutLastLineEnd (a ++ b) = a ++ withoutLastLineEnd b := by
  obtain ⟨v, c, rfl, hc⟩ := ha
  have hline : c ≠ '\n' := by
    rintro rfl
    cases hc
  have hreturn : c ≠ '\r' := by
    rintro rfl
    cases hc
  have hback : (v ++ [c] ++ b).reverse = b.reverse ++ c :: v.reverse := by simp
  have hfront : v ++ [c] = (c :: v.reverse).reverse := by simp
  unfold withoutLastLineEnd
  rw [hback, hfront]
  generalize b.reverse = r
  cases r with
  | nil => simp [hline, hreturn]
  | cons x r =>
    by_cases hx : x = '\n'
    · subst hx
      cases r with
      | nil => simp [hreturn]
      | cons y r =>
        by_cases hy : y = '\r'
        · subst hy
          simp
        · simp [hy]
    · by_cases hx' : x = '\r'
      · subst hx'
        simp
      · simp [hx, hx']

theorem withoutLastLineEnd_trims (s : List Char) : Trims s (withoutLastLineEnd s) := by
  obtain ⟨b, hb, hblank⟩ := withoutLastLineEnd_reverse s
  have hs : s = withoutLastLineEnd s ++ b.reverse := by
    rw [← List.reverse_inj, List.reverse_append, List.reverse_reverse]
    exact hb
  have htrims : Trims (withoutLastLineEnd s ++ b.reverse) (withoutLastLineEnd s) :=
    .of_back (fun c hc => hblank c (List.mem_reverse.1 hc)) _
  rwa [← hs] at htrims

theorem endsSolid_errorBlock (marker : Component.Marker) (name message : String) :
    EndsSolid (Component.errorBlock marker name message).toList := by
  rw [Component.toList_errorBlock]
  exact ⟨'<' :: (Component.errorInner marker name message ++ "</div".toList), '>', by simp [Component.errorCloser],
    by decide⟩

/-- Whatever stands in the place of a directive ends with an angle or a brace. -/
theorem endsSolid_replacement (d : Directive) : EndsSolid (d.replacement p registry).source := by
  unfold replacement
  split
  · exact endsSolid_errorBlock _ _ _
  · split
    · exact endsSolid_errorBlock _ _ _
    · split
      · rw [← callTag_source]
        exact Tag.endsSolid _
      · exact endsSolid_errorBlock _ _ _

/-- Only the text at the end loses a line end. -/
theorem withoutLastLineEnd_replaced (h : List.Forall₂ (StandsIn p registry) ds rs) (head : List Char) :
    ∃ head' rs', withoutLastLineEnd (replaced head rs) = replaced head' rs' ∧ Trims head head' ∧
      List.Forall₂ (StandsIn p registry) ds rs' := by
  induction h generalizing head with
  | nil => exact ⟨_, [], rfl, withoutLastLineEnd_trims head, .nil⟩
  | @cons d r ds rs hdr h ih =>
    obtain ⟨r, text⟩ := r
    obtain ⟨text', rs', hrest, htext', hrs'⟩ := ih text
    have hsame : r = d.1.2.replacement p registry := hdr.replacement
    have hsolid : EndsSolid r.source := by
      rw [hsame]
      exact endsSolid_replacement d.1.2
    refine ⟨head, (r, text') :: rs', ?_, .refl head, .cons ⟨hdr.replacement, hdr.text.trans htext'⟩ hrs'⟩
    rw [replaced, ← List.append_assoc, withoutLastLineEnd_append (hsolid.append head), hrest, replaced,
      List.append_assoc]

/-! ### Error blocks are text -/

/-- The text in front of the first call, and the calls each with the text behind it. -/
def gather (head : List Char) :
    List (Trace × List Char) → List Char × List ((String × List (String × PropForm)) × List Char)
  | [] => (head, [])
  | (.error marker name message, text) :: rest =>
    (head ++ ((Component.errorBlock marker name message).toList ++ (gather text rest).1), (gather text rest).2)
  | (.live name props, text) :: rest => (head, ((name, props), (gather text rest).1) :: (gather text rest).2)

theorem mem_gather {c : (String × List (String × PropForm)) × List Char} (hc : c ∈ (gather head os).2) :
    ∃ o ∈ os, o.1 = .live c.1.1 c.1.2 := by
  induction os generalizing head with
  | nil => exact absurd hc List.not_mem_nil
  | cons o os ih =>
    obtain ⟨o, text⟩ := o
    have hmore (hc : c ∈ (gather text os).2) : ∃ o' ∈ (o, text) :: os, o'.1 = .live c.1.1 c.1.2 := by
      obtain ⟨o', ho', hlive⟩ := ih hc
      exact ⟨o', List.mem_cons_of_mem _ ho', hlive⟩
    cases o with
    | error marker name message => exact hmore hc
    | live name props =>
      rcases List.mem_cons.1 hc with rfl | hc
      · exact ⟨_, List.mem_cons_self, rfl⟩
      · exact hmore hc

theorem exists_mem_gather {o : Trace × List Char} {name : String} {props : List (String × PropForm)} (ho : o ∈ os)
    (hlive : o.1 = .live name props) (head : List Char) : ∃ c ∈ (gather head os).2, c.1 = (name, props) := by
  induction os generalizing head with
  | nil => exact absurd ho List.not_mem_nil
  | cons o' os ih =>
    obtain ⟨o', text⟩ := o'
    rcases List.mem_cons.1 ho with rfl | ho
    · obtain rfl : o' = .live name props := hlive
      exact ⟨_, List.mem_cons_self, rfl⟩
    · obtain ⟨c, hc, hcall⟩ := ih ho text
      cases o' with
      | error marker name message => exact ⟨c, hc, hcall⟩
      | live name props => exact ⟨c, List.mem_cons_of_mem _ hc, hcall⟩

/-- What a replacement puts in its place, with the same text behind it, in which no tag opens. -/
structure PutsIn (r : Replacement × List Char) (o : Trace × List Char) : Prop where
  puts : r.1.Puts o.1
  text : o.2 = r.2
  free : '\x7b' ∉ r.2

/-- What is put in the places of the directives is text with calls in it. -/
theorem replaced_gather (h : List.Forall₂ PutsIn rs os)
    (hhead : '\x7b' ∉ head) : '\x7b' ∉ (gather head os).1 ∧ ∃ ts qs,
      replaced head rs = cutSource (inline (gather head os).1 ts) ∧
        List.Forall₂ (fun c q => c.1.Says q.1 ∧ q.2 = c.2 ∧ '\x7b' ∉ c.2) ts qs ∧
          List.Forall₂ (CallFor Expr.IsForm) (gather head os).2 qs := by
  induction h generalizing head with
  | nil => exact ⟨hhead, [], [], (cutSource_chars head).symm, .nil, .nil⟩
  | @cons r o rs os hro h ih =>
    obtain ⟨r, text⟩ := r
    obtain ⟨o, text'⟩ := o
    obtain ⟨hputs, htext, hfree⟩ := hro
    obtain rfl : text' = text := htext
    obtain ⟨hgather, ts, qs, hsource, hspoken, hcalls⟩ := ih hfree
    cases hputs with
    | block marker name message =>
      have hblock := (errorBlock_isMarkup marker name message).brace_free
      refine ⟨?_, ts, qs, ?_, hspoken, hcalls⟩
      · rw [gather, List.mem_append, List.mem_append, not_or, not_or]
        exact ⟨hhead, hblock, hgather⟩
      · rw [replaced, hsource, gather, inline_append, cutSource_append, cutSource_chars, inline_append,
          cutSource_append, cutSource_chars]
        rfl
    | @call name texts props words hword hsaid =>
      refine ⟨hhead, (callTag name texts, _) :: ts, (callTokens name words, _) :: qs, ?_,
        .cons ⟨hword, rfl, hgather⟩ hspoken, .cons ⟨⟨words, rfl, hsaid⟩, rfl⟩ hcalls⟩
      rw [replaced, hsource, gather, cutSource_inline, callTag_source]

theorem page_append (a b : String) (ms : List (Component.Mark × String)) :
    Component.page (a ++ b) ms = a ++ Component.page b ms := by
  cases ms with
  | nil => rfl
  | cons m ms => exact String.append_assoc ..

/-- The page of the calls is the page of all that the directives leave. -/
theorem callPage_gather (data : Json.Value) (head : List Char) (os : List (Trace × List Char)) :
    callPage (gather head os).1 ((gather head os).2.map fun c =>
        ((c.1.1, c.1.2.map fun q => (q.1, (q.2.value? data).getD .null)), c.2)) =
      Component.page (String.ofList head) (os.map fun o => (o.1.mark data, String.ofList o.2)) := by
  induction os generalizing head with
  | nil => rfl
  | cons o os ih =>
    obtain ⟨o, text⟩ := o
    have ih := ih text
    unfold callPage at ih ⊢
    cases o with
    | error marker name message =>
      rw [gather, String.ofList_append, String.ofList_append, page_append, page_append, ih, String.ofList_toList]
      rfl
    | live name props =>
      rw [gather, List.map_cons, callMarks, List.map_cons, Component.page, ← callMarks, ih]
      rfl

/-! ### Compiling -/

variable {s : Policy.Settings}

/-- The scanner takes the source apart into text without opening braces and tags that are read as these directives; the
integers in those that are placed have 64 bits. -/
structure IsLayout (p : SecurityPolicy) (registry : Option Component.Registry) (source : String) (head : List Char)
    (ds : List ((Tag × Directive) × List Char)) : Prop where
  scanned : scan source.toList = .ok ((inline head (ds.map fun d => (d.1.1, d.2))).flatMap Chunk.pieces)
  head : '\x7b' ∉ head
  directives : ∀ d ∈ ds, d.1.1.Directs d.1.2 ∧ '\x7b' ∉ d.2
  writable : ∀ d ∈ ds, d.1.2.Placed p registry → ∀ q ∈ d.1.2.props, q.2.Writable

/-- Text with replacements in it is compiled to texts and calls. -/
theorem parse_replaced (h : List.Forall₂ PutsIn rs os)
    (hhead : '\x7b' ∉ head) {source : List Char} (hsource : withoutLastLineEnd source = replaced head rs)
    (space : BlockSpace) (name : String) :
    ∃ ss, parse space name source = .ok ss ∧ StmtsFor Expr.IsForm (gather head os).1 (gather head os).2 ss := by
  obtain ⟨hgather, ts, qs, hcut, hspoken, hcalls⟩ := replaced_gather h hhead
  obtain ⟨htokens, hfault⟩ := tokenize_of_inline space (hsource.trans hcut) hspoken hgather
  exact parse_inline htokens hfault hcalls name

/-- What a directive leaves, and what is left of the text behind it. -/
structure LeavesIn (p : SecurityPolicy) (registry : Option Component.Registry) (d : (Tag × Directive) × List Char)
    (o : Trace × List Char) : Prop where
  trace : d.1.2.Leaves p registry o.1
  text : Trims d.2 o.2

theorem exists_leavesIn (hp : p.Plain s) (hds : ∀ d ∈ ds, d.1.1.Directs d.1.2 ∧ '\x7b' ∉ d.2)
    (hwritable : ∀ d ∈ ds, d.1.2.Placed p registry → ∀ q ∈ d.1.2.props, q.2.Writable)
    (hrs : List.Forall₂ (StandsIn p registry) ds rs) : ∃ os, List.Forall₂ (LeavesIn p registry) ds os ∧
      (∀ o ∈ os, o.1.Ready p registry) ∧
        List.Forall₂ PutsIn rs os := by
  induction hrs with
  | nil => exact ⟨[], .nil, fun o ho => absurd ho List.not_mem_nil, .nil⟩
  | @cons d r ds rs hdr hrs ih =>
    obtain ⟨⟨hdirects, hfree⟩, hds⟩ := List.forall_mem_cons.1 hds
    obtain ⟨hfirst, hwritable⟩ := List.forall_mem_cons.1 hwritable
    obtain ⟨os, hleaves, hready, hputs⟩ := ih hds hwritable
    obtain ⟨o, hleave, hput, hor⟩ := exists_leaves hp hdirects.parse hfirst
    rw [← hdr.replacement] at hput
    exact ⟨(o, r.2) :: os, .cons ⟨hleave, hdr.text⟩ hleaves, List.forall_mem_cons.2 ⟨hor, hready⟩,
      .cons ⟨hput, rfl, fun hmem => hfree (hdr.text.isInfix.subset hmem)⟩ hputs⟩

/-- A layout is compiled to texts and calls in the places of its directives. -/
theorem compile_layout (hp : p.Plain s) {source : String} (h : IsLayout p registry source head ds) :
    ∃ head' os, Trims head head' ∧ List.Forall₂ (LeavesIn p registry) ds os ∧ (∀ o ∈ os, o.1.Ready p registry) ∧
      ∀ name, ∃ ss, TemplateEnvironment.compileSource p registry name source = .ok ss ∧
        StmtsFor Expr.IsForm (gather head' os).1 (gather head' os).2 ss := by
  obtain ⟨head₁, rs₁, hexpand, hhead₁, hrs₁⟩ : ∃ head' rs, expand p registry source.toList = .ok (replaced head' rs) ∧
      Trims head head' ∧ List.Forall₂ (StandsIn p registry) ds rs :=
    expand_inline h.scanned fun d hd => (h.directives d hd).1
  obtain ⟨head₂, rs₂, hcut, hhead₂, hrs₂⟩ := withoutLastLineEnd_replaced hrs₁ head₁
  obtain ⟨os, hleaves, hready, hputs⟩ := exists_leavesIn hp h.directives h.writable hrs₂
  refine ⟨head₂, os, hhead₁.trans hhead₂, hleaves, hready, fun name => ?_⟩
  have hfree : '\x7b' ∉ head₂ := fun hmem => h.head ((hhead₁.trans hhead₂).isInfix.subset hmem)
  obtain ⟨ss, hparse, hss⟩ := parse_replaced hputs hfree hcut .layout name
  refine ⟨ss, ?_, hss⟩
  rw [TemplateEnvironment.compileSource, hexpand]
  dsimp only [bind, Except.bind]
  rw [TemplateEnvironment.blockSpace, hparse]

/-! ### Rendering -/

variable {ss : List Stmt} {env : TemplateEnvironment}

/-- Calls come to what their forms come to. -/
theorem comes_of_ready {w : World} (hready : ∀ o ∈ os, o.1.Ready p registry) (hdata : w.data = .ofJson data)
    (hportable : data.Portable) :
    ∀ c ∈ (gather head os).2, ∀ q ∈ c.1.2, ∀ e : Expr, e.IsForm q.2 → e.Comes w (q.2.value? data) := by
  intro c hc q hq e he
  obtain ⟨o, ho, hlive⟩ := mem_gather hc
  have hor := hready o ho
  rw [hlive] at hor
  exact he.comes (hor.2.2 q hq) hdata hportable

theorem placeable_of_ready (hready : ∀ o ∈ os, o.1.Ready env.policy env.registry) :
    ∀ c ∈ (gather head os).2, Placeable (env.world data) c.1.1 := by
  intro c hc
  obtain ⟨o, ho, hlive⟩ := mem_gather hc
  have hor := hready o ho
  rw [hlive] at hor
  exact ⟨hor.1, hor.2.1⟩

/-- Where no path breaks, the page has the marks of all that the directives leave. -/
theorem renderStmts_marks (h : StmtsFor Expr.IsForm (gather head os).1 (gather head os).2 ss)
    (hready : ∀ o ∈ os, o.1.Ready env.policy env.registry) (hportable : data.Portable)
    (hfree : (env.policy.secureContext data).member? placeholderFunction = none)
    (hwhole : ∀ o ∈ os, ¬o.1.Breaks (env.policy.secureContext data)) (name : String) :
    (env.renderStmts name ss data).1 = .ok (Component.page (String.ofList head)
      (os.map fun o => (o.1.mark (env.policy.secureContext data), String.ofList o.2))) := by
  have hdata : (env.world data).data = .ofJson (env.policy.secureContext data) := rfl
  have hcomes : ∀ c ∈ (gather head os).2, _ :=
    comes_of_ready hready hdata (env.policy.portable_secureContext hportable)
  have hserves : StmtsFor (Expr.Serves (env.world data)) (gather head os).1 _ ss :=
    h.map (fun f => (f.value? (env.policy.secureContext data)).getD .null) fun c hc q hq e he => by
      have hcome := hcomes c hc q hq e he
      cases hv : q.2.value? (env.policy.secureContext data) with
      | none =>
        obtain ⟨o, ho, hlive⟩ := mem_gather hc
        refine absurd ?_ (hwhole o ho)
        rw [hlive]
        exact ⟨q, hq, hv⟩
      | some v =>
        rw [hv] at hcome
        exact hcome
  have hplaceable : ∀ c ∈ (gather head os).2, Placeable (env.world data) c.1.1 := placeable_of_ready hready
  have hrendered := renderBody_inline hserves (List.forall_mem_map.2 hplaceable) hdata hfree name env.budget.reset
  rw [callPage_gather] at hrendered
  rw [TemplateEnvironment.renderStmts, TemplateEnvironment.run]
  dsimp only
  rw [hrendered]
  rfl

/-- Where a path breaks, the render fails for want of a value. -/
theorem renderStmts_breaks (h : StmtsFor Expr.IsForm (gather head os).1 (gather head os).2 ss)
    (hready : ∀ o ∈ os, o.1.Ready env.policy env.registry) (hportable : data.Portable)
    (hfree : (env.policy.secureContext data).member? placeholderFunction = none)
    (hbroken : ∃ o ∈ os, o.1.Breaks (env.policy.secureContext data)) (name : String) : ∃ line,
    (env.renderStmts name ss data).1 =
      .error (.render ("undefined value (in " ++ name ++ ":" ++ toString (line : Nat) ++ ")")) := by
  have hdata : (env.world data).data = .ofJson (env.policy.secureContext data) := rfl
  have hcomes : ∀ c ∈ (gather head os).2, _ :=
    comes_of_ready hready hdata (env.policy.portable_secureContext hportable)
  have hmapped : StmtsFor (Expr.Comes (env.world data)) (gather head os).1 _ ss :=
    h.map (fun f => f.value? (env.policy.secureContext data)) hcomes
  have hnone : ∃ c ∈ (gather head os).2.map fun c =>
      ((c.1.1, c.1.2.map fun q => (q.1, q.2.value? (env.policy.secureContext data))), c.2),
      ∃ q ∈ c.1.2, q.2 = none := by
    obtain ⟨o, ho, hbreaks⟩ := hbroken
    obtain ⟨o, text⟩ := o
    cases o with
    | error marker name message => exact hbreaks.elim
    | live name props =>
      obtain ⟨q, hq, hv⟩ := hbreaks
      obtain ⟨c, hc, hcall⟩ := exists_mem_gather ho rfl head
      refine ⟨_, List.mem_map_of_mem hc, _, List.mem_map_of_mem ?_, hv⟩
      rw [hcall]
      exact hq
  have hplaceable : ∀ c ∈ (gather head os).2, Placeable (env.world data) c.1.1 := placeable_of_ready hready
  obtain ⟨line, hrendered, hbudget⟩ := renderBody_breaks hmapped (List.forall_mem_map.2 hplaceable) hnone hdata hfree
    name env.budget.reset
  refine ⟨line, ?_⟩
  rw [TemplateEnvironment.renderStmts, TemplateEnvironment.run]
  dsimp only
  rw [hrendered, hbudget]
  rfl

theorem renderString_of_compile {source : String}
    (h : TemplateEnvironment.compileSource env.policy env.registry TemplateEnvironment.unnamed source = .ok ss) :
    env.renderString source data = env.renderStmts TemplateEnvironment.unnamed ss data := by
  rw [TemplateEnvironment.compileSource] at h
  rw [TemplateEnvironment.renderString]
  cases hexpand : expand env.policy env.registry source.toList with
  | error e =>
    rw [hexpand] at h
    cases h
  | ok expanded =>
    rw [hexpand] at h
    dsimp only [bind, Except.bind] at h ⊢
    cases hparse : parse TemplateEnvironment.blockSpace TemplateEnvironment.unnamed expanded with
    | error e =>
      rw [hparse] at h
      cases h
    | ok stmts =>
      rw [hparse] at h
      cases h
      rfl

/-- A layout renders to its text with what its directives leave in their places, or fails for want of a value because a
path in a placeholder takes a step from nothing. -/
theorem renderString_layout (hp : env.policy.Plain s) {source : String}
    (hlayout : IsLayout env.policy env.registry source head ds) (hportable : data.Portable) : ∃ head' os,
      Trims head head' ∧ List.Forall₂ (LeavesIn env.policy env.registry) ds os ∧
        ((∀ o ∈ os, ¬o.1.Breaks (env.policy.secureContext data)) → (env.renderString source data).1 =
          .ok (Component.page (String.ofList head')
            (os.map fun o => (o.1.mark (env.policy.secureContext data), String.ofList o.2)))) ∧
        ((∃ o ∈ os, o.1.Breaks (env.policy.secureContext data)) → ∃ line, (env.renderString source data).1 =
          .error (.render ("undefined value (in <string>:" ++ toString (line : Nat) ++ ")"))) := by
  obtain ⟨head', os, hhead', hleaves, hready, hcompile⟩ := compile_layout hp hlayout
  obtain ⟨ss, hss, hfor⟩ := hcompile TemplateEnvironment.unnamed
  have hfree := hp.member?_placeholderFunction data
  refine ⟨head', os, hhead', hleaves, fun hwhole => ?_, fun hbroken => ?_⟩
  · rw [renderString_of_compile hss]
    exact renderStmts_marks hfor hready hportable hfree hwhole _
  · rw [renderString_of_compile hss]
    exact renderStmts_breaks hfor hready hportable hfree hbroken _

/-- An environment that lets `A` be placed and bound to what stands under `input`. -/
def oneComponent : TemplateEnvironment :=
  { policy := ⟨⟨some ["A"]⟩, ⟨["input"]⟩, .rounds (.one (.range 'a' 'z')) 1 none, 10, 1000⟩
    registry := none
    budget := { max := 1000 } }

def nameData : Json.Value :=
  .object [("input", .object [("name", .text "x")])]

-- A last member that is missing is no fault.
example : (oneComponent.renderString "\x7b% component A x=input.nmae %\x7d" nameData).1 =
    .ok "<div data-component=\"A\" data-props='\x7b\"x\":null\x7d'></div>" := by
  decide +kernel

/-- Something in one list stands for it in the other. -/
theorem exists_leavesIn_of_mem (h : List.Forall₂ (LeavesIn p registry) ds os) :
    (∀ d ∈ ds, ∃ o ∈ os, LeavesIn p registry d o) ∧ ∀ o ∈ os, ∃ d ∈ ds, LeavesIn p registry d o := by
  induction h with
  | nil => exact ⟨fun d hd => absurd hd List.not_mem_nil, fun o ho => absurd ho List.not_mem_nil⟩
  | cons hdo h ih =>
    refine ⟨List.forall_mem_cons.2 ⟨⟨_, List.mem_cons_self, hdo⟩, fun d hd => ?_⟩,
      List.forall_mem_cons.2 ⟨⟨_, List.mem_cons_self, hdo⟩, fun o ho => ?_⟩⟩
    · obtain ⟨o, ho, hdo⟩ := ih.1 d hd
      exact ⟨o, List.mem_cons_of_mem _ ho, hdo⟩
    · obtain ⟨d, hd, hdo⟩ := ih.2 o ho
      exact ⟨d, List.mem_cons_of_mem _ hd, hdo⟩

/-- A literal comes to a value. -/
theorem PropSource.Has.value?_ne_none {source : List Char} {f : PropForm} (h : (PropSource.literal source).Has f)
    (data : Json.Value) : f.value? data ≠ Option.none := by
  cases h <;> exact Option.some_ne_none _

/-- A directive with constants breaks nothing. -/
theorem Directive.Leaves.not_breaks {d : Directive} {o : Trace} (h : d.Leaves p registry o)
    (hconstants : d.Placed p registry → ∀ q ∈ d.props, ∃ source, q.2 = .literal source) (data : Json.Value) :
    ¬o.Breaks data := by
  cases h with
  | live hplaced hprops =>
    rintro ⟨f, hf, hnone⟩
    have hconstants := hconstants hplaced
    generalize d.props = props at hprops hconstants
    induction hprops with
    | nil => exact absurd hf List.not_mem_nil
    | cons hqf hprops ih =>
      obtain ⟨⟨source, hsource⟩, hconstants⟩ := List.forall_mem_cons.1 hconstants
      rcases List.mem_cons.1 hf with rfl | hf
      · have hhas := hqf.has
        rw [hsource] at hhas
        exact hhas.value?_ne_none data hnone
      · exact ih hf hconstants
  | _ => exact id

/-- What a directive that is placed leaves breaks if one of its paths does. -/
theorem Directive.Leaves.breaks {d : Directive} {o : Trace} (h : d.Leaves p registry o) (hplaced : d.Placed p registry)
    {q : String × PropSource} (hq : q ∈ d.props) {path : List Char} {n : String} {ss : List Step}
    (hpath : q.2 = .binding path) (hroute : Route path n ss) (hbroken : follow? (data.member? n) ss = none) :
    o.Breaks data := by
  cases h with
  | disallowed hname => exact absurd (hname.symm.trans hplaced.allowed) Bool.false_ne_true
  | unknown hname hr hunknown => exact absurd (hunknown.symm.trans (hplaced.registered _ hr)) Bool.false_ne_true
  | refused hname hregistered hprops hbefore hrefused =>
    have hallowed := hplaced.permitted _ (hprops ▸ List.mem_append_right _ List.mem_cons_self) _ rfl
    exact absurd (hrefused.symm.trans hallowed) Bool.false_ne_true
  | @live _ props hprops =>
    generalize d.props = sources at hprops hq
    induction hprops with
    | nil => exact absurd hq List.not_mem_nil
    | @cons q' f sources props hqf hprops ih =>
      rcases List.mem_cons.1 hq with rfl | hq
      · obtain ⟨key, f⟩ := f
        have hhas : q.2.Has f := hqf.has
        rw [hpath] at hhas
        cases hhas with
        | path hroute' =>
          obtain ⟨rfl, rfl⟩ := hroute'.unique hroute
          refine ⟨_, List.mem_cons_self, ?_⟩
          rw [PropForm.value?, hbroken]
          rfl
      · obtain ⟨f', hf', hnone⟩ := ih hq
        exact ⟨f', List.mem_cons_of_mem _ hf', hnone⟩

/-- A directive leaves a placeholder only if it may be placed, and under its own name. -/
theorem Directive.Leaves.placed {d : Directive} {o : Trace} (h : d.Leaves p registry o) {name : String}
    {props : Json.Value} (hmark : o.mark data = .live name props) : d.Placed p registry ∧ d.name = name := by
  cases h with
  | live hplaced hprops =>
    cases hmark
    exact ⟨hplaced, rfl⟩
  | _ => cases hmark

/-- A directive with constants, or one that is refused, never fails a render: every directive leaves its placeholder or
its error block. -/
theorem renderString_constants (hp : env.policy.Plain s) {source : String}
    (hlayout : IsLayout env.policy env.registry source head ds) (hportable : data.Portable)
    (hconstants : ∀ d ∈ ds, d.1.2.Placed env.policy env.registry → ∀ q ∈ d.1.2.props, ∃ text, q.2 = .literal text) :
    ∃ head' os, Trims head head' ∧ List.Forall₂ (LeavesIn env.policy env.registry) ds os ∧
      (env.renderString source data).1 = .ok (Component.page (String.ofList head')
        (os.map fun o => (o.1.mark (env.policy.secureContext data), String.ofList o.2))) := by
  obtain ⟨head', os, hhead', hleaves, hwhole, -⟩ := renderString_layout hp hlayout hportable
  refine ⟨head', os, hhead', hleaves, hwhole fun o ho => ?_⟩
  obtain ⟨d, hd, hdo⟩ := (exists_leavesIn_of_mem hleaves).2 o ho
  exact hdo.trace.not_breaks (hconstants d hd) _

-- An integer of more than 64 bits does fail it.
example : (oneComponent.renderString "\x7b% component A n=18446744073709551616 %\x7d" nameData).1 =
    .error (.render "invalid operation: component props not serializable: number out of range (in <string>:1)") := by
  decide +kernel

/-- Whatever a layout names, only components that the policy allows and the registry knows have placeholders in what
it renders to, if its text does not open one. -/
theorem allowed_of_found (hp : env.policy.Plain s) {source : String}
    (hlayout : IsLayout env.policy env.registry source head ds) (hportable : data.Portable)
    (hhead : Component.Silent (String.ofList head)) (htexts : ∀ d ∈ ds, Component.Silent (String.ofList d.2))
    {out : String} (hout : (env.renderString source data).1 = .ok out) {l : Component.Located}
    (hl : l ∈ Component.findPlaceholders out) :
    env.policy.validateComponent l.placeholder.name = true ∧
      ∀ r ∈ env.registry, r.contains l.placeholder.name = true := by
  obtain ⟨head', os, hhead', hleaves, hrenders, hbreaks⟩ := renderString_layout hp hlayout hportable
  have hwhole : ∀ o ∈ os, ¬o.1.Breaks (env.policy.secureContext data) := by
    intro o ho hbroken
    obtain ⟨line, herror⟩ := hbreaks ⟨o, ho, hbroken⟩
    cases hout.symm.trans herror
  obtain rfl := Except.ok.inj (hout.symm.trans (hrenders hwhole))
  have hrest : ∀ m ∈ os.map fun o => (o.1.mark (env.policy.secureContext data), String.ofList o.2),
      Component.Silent m.2 := by
    refine List.forall_mem_map.2 fun o ho => ?_
    obtain ⟨d, hd, hdo⟩ := (exists_leavesIn_of_mem hleaves).2 o ho
    exact (htexts d hd).part hdo.text.isInfix
  obtain ⟨props, t, hmem⟩ := Component.exists_live_of_found (hhead.part hhead'.isInfix) hrest hl
  obtain ⟨o, ho, hmark⟩ := List.mem_map.1 hmem
  obtain ⟨d, hd, hdo⟩ := (exists_leavesIn_of_mem hleaves).2 o ho
  obtain ⟨hplaced, hname⟩ := hdo.trace.placed (congrArg Prod.fst hmark)
  rw [← hname]
  exact ⟨hplaced.allowed, hplaced.registered⟩

/-- A path that takes a step from nothing fails the render. -/
theorem renderString_breaks (hp : env.policy.Plain s) {source : String}
    (hlayout : IsLayout env.policy env.registry source head ds) (hportable : data.Portable)
    {d : (Tag × Directive) × List Char} (hd : d ∈ ds) (hplaced : d.1.2.Placed env.policy env.registry)
    {q : String × PropSource} (hq : q ∈ d.1.2.props) {path : List Char} {n : String} {ss : List Step}
    (hpath : q.2 = .binding path) (hroute : Route path n ss)
    (hbroken : follow? ((env.policy.secureContext data).member? n) ss = none) : ∃ line,
      (env.renderString source data).1 =
        .error (.render ("undefined value (in <string>:" ++ toString (line : Nat) ++ ")")) := by
  obtain ⟨head', os, -, hleaves, -, hbreaks⟩ := renderString_layout hp hlayout hportable
  obtain ⟨o, ho, hdo⟩ := (exists_leavesIn_of_mem hleaves).1 d hd
  exact hbreaks ⟨o, ho, hdo.trace.breaks hplaced hq hpath hroute hbroken⟩

/-- A member of a member that is missing. -/
theorem renderString_breaks_typo : ∃ line,
    (oneComponent.renderString "\x7b% component A x=input.nmae.x %\x7d" nameData).1 =
      .error (.render ("undefined value (in <string>:" ++ toString (line : Nat) ++ ")")) := by
  let t : Tag := ⟨.block, .none, " component A x=input.nmae.x ".toList, .none⟩
  let d : Directive := ⟨"A", [("x", .binding "input.nmae.x".toList)]⟩
  have hp : oneComponent.policy.Plain oneRoot := ⟨rfl, by decide⟩
  have hlayout : IsLayout oneComponent.policy oneComponent.registry "\x7b% component A x=input.nmae.x %\x7d" []
      [((t, d), [])] := by
    have hdirects : t.Directs d := ⟨by decide, by decide +kernel⟩
    refine ⟨?_, List.not_mem_nil, List.forall_mem_singleton.2 ⟨hdirects, List.not_mem_nil⟩, ?_⟩
    · have hsource : "\x7b% component A x=input.nmae.x %\x7d".toList =
          '\x7b' :: "% component A x=input.nmae.x %\x7d".toList := rfl
      have hpiece : piece 1 '\x7b' "% component A x=input.nmae.x %\x7d".toList = .ok ([.tag t], []) := rfl
      rw [scan, hsource]
      exact scanFrom_cons hpiece (by rw [scanFrom]; rfl)
    · refine List.forall_mem_singleton.2 fun _ => List.forall_mem_singleton.2 ?_
      rintro before digits after hpath -
      have hmem : '[' ∈ "input.nmae.x".toList := hpath ▸ by simp
      exact absurd hmem (by decide)
  have hplaced : d.Placed oneComponent.policy oneComponent.registry := by
    refine ⟨by decide, fun r hr => absurd hr (Option.not_mem_none r), List.forall_mem_singleton.2 fun path hpath => ?_⟩
    obtain rfl := PropSource.binding.inj hpath
    decide +kernel
  have hroute : Route "input.nmae.x".toList "input" [.member "nmae", .member "x"] := by
    have hinput : Route "input".toList "input" [] := .root (by decide)
    exact (hinput.member (m := "nmae") (by decide)).member (m := "x") (by decide)
  have hportable : nameData.Portable := by
    refine .object (List.pairwise_singleton ..) (List.forall_mem_singleton.2 ?_)
    exact .object (List.pairwise_singleton ..) (List.forall_mem_singleton.2 (.text "x"))
  exact renderString_breaks hp hlayout hportable List.mem_cons_self hplaced List.mem_cons_self rfl hroute rfl

end SecureLayout.Template
