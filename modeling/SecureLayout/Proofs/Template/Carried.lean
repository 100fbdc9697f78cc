import SecureLayout.Proofs.Entries
import SecureLayout.Proofs.Template.Answering
import SecureLayout.Template.Environment

/-!
Props on their way from a layout to its placeholders. Main statement: a layout of text and component directives
renders, and the placeholders found in its output carry the names and the props of the directives,
`findPlaceholders_layout`.
-/

namespace SecureLayout.Template

open Component (Silent)

variable {p : SecurityPolicy} {registry : Option Component.Registry} {data v : Json.Value} {w source head : List Char}
  {ds : List (WrittenDirective × List Char)} {d : WrittenDirective × List Char} {c : Tag × List Char}

/-! ### What props denote -/

/-- What a prop denotes can be written down and read back. -/
theorem Denotes.fits (h : Denotes p data source v) : v.Fits 100 := by
  cases h with
  | text hq t => exact ⟨⟨.text t, Nat.zero_le _⟩, .text t⟩
  | integer hdigits hword =>
    have hinteger : (Json.Number.int (decimal source)).IsWord := by
      rw [Json.Number.IsWord]
      omega
    exact ⟨⟨.number _, Nat.zero_le _⟩, .number hinteger⟩
  | @negative digits hdigits hword =>
    have hnegative : (Json.Number.int (-decimal digits)).IsWord := by
      have hpositive : 0 < Numeric.twoTo 64 := by decide
      rw [Json.Number.IsWord]
      omega
    exact ⟨⟨.number _, Nat.zero_le _⟩, .number hnegative⟩
  | bool hw => exact ⟨⟨.bool _, Nat.zero_le _⟩, .bool _⟩
  | null hw => exact ⟨⟨.null, Nat.zero_le _⟩, .null⟩
  | binding h hnull hpermitted hv => exact hv

namespace WrittenDirective

/-- Name and props of the placeholder that a directive becomes. -/
def carried (d : WrittenDirective) : String × List (String × Json.Value) :=
  (d.name, d.props.map fun q => (q.key, q.value))

/-- The payload may be read back from a placeholder. -/
theorem Valid.payload_fits {d : WrittenDirective} (h : d.Valid p registry data) : d.payload.Fits 101 := by
  refine Json.Value.fits_object_iff.2 ⟨Entries.sorted_ofList _, fun m hm => ?_⟩
  obtain ⟨q, hq, rfl⟩ := List.mem_map.1 (Entries.mem_ofList hm)
  exact (h.props q hq).value.fits

/-- Every prop is in the payload under its key. -/
theorem Valid.member?_payload {d : WrittenDirective} (h : d.Valid p registry data) {q : WrittenProp}
    (hq : q ∈ d.props) : d.payload.member? q.key = some q.value := by
  have hkeys : ((d.props.map fun q => (q.key, q.value)).map Prod.fst).Nodup := by
    rw [List.map_map]
    exact h.distinct
  exact Entries.get?_ofList_of_mem hkeys (e := (q.key, q.value)) (List.mem_map_of_mem hq)

end WrittenDirective

/-! ### From the layout to the tree -/

/-- A call with the text behind it that a directive with the text behind it becomes. -/
structure Becomes (d : WrittenDirective × List Char) (c : (String × List (String × Json.Value)) × List Char) :
    Prop where
  call : c.1 = d.1.carried
  text : c.2 <:+: d.2

theorem exists_becomes {cs : List ((String × List (String × Json.Value)) × List Char)}
    (h : List.Forall₂ Becomes ds cs) : ∀ c ∈ cs, ∃ d ∈ ds, Becomes d c := by
  induction h with
  | nil => exact fun c hc => absurd hc List.not_mem_nil
  | cons hdc hrest ih =>
    refine List.forall_mem_cons.2 ⟨⟨_, List.mem_cons_self, hdc⟩, fun c hc => ?_⟩
    obtain ⟨d, hd, hdc⟩ := ih c hc
    exact ⟨d, List.mem_cons_of_mem _ hd, hdc⟩

/-- The lexer reads in the call that replaces a directive what the directive is to carry. -/
theorem Replaces.spoken (h : Replaces data d c) (hd : d.1.Valid p registry data) : ∃ words,
    c.1.Says (callTokens d.1.name words) ∧ List.Forall₂ (Parser.SaidFor (Expr.StandsFor data)) d.1.carried.2 words := by
  obtain ⟨texts, hcall, htexts⟩ := h.call
  have hwords : ∀ {qs : List WrittenProp} {texts : List (String × List Char)},
      List.Forall₂ (fun q t => t.1 = q.key ∧ Means data t.2 q.value) qs texts → (∀ q ∈ qs, q.Valid p data) →
      ∃ words,
        List.Forall₂ (fun t q => t.1 = q.1 ∧ Text.isIdentifier t.1 = true ∧ Spoken EndsWord t.2 q.2) texts words ∧
        List.Forall₂ (Parser.SaidFor (Expr.StandsFor data)) (qs.map fun q => (q.key, q.value)) words := by
    intro qs texts h
    induction h with
    | nil => exact fun _ => ⟨[], .nil, .nil⟩
    | @cons q t qs texts hqt hrest ih =>
      intro hqs
      obtain ⟨hq, hqs⟩ := List.forall_mem_cons.1 hqs
      obtain ⟨words, hspoken, hsaid⟩ := ih hqs
      obtain ⟨hkey, hmeans⟩ := hqt
      obtain ⟨ts, hutters, hts⟩ := hmeans.spoken
      exact ⟨(q.key, ts) :: words, .cons ⟨hkey, hkey ▸ hq.key.identifier, hts⟩ hspoken,
        .cons ⟨rfl, Parser.readsAs_value hutters⟩ hsaid⟩
  obtain ⟨words, hspoken, hsaid⟩ := hwords htexts hd.props
  have hname : Directive.GoodName d.1.name := by
    have hgood := Directive.isComponentName_good hd.name
    rwa [String.ofList_toList] at hgood
  refine ⟨words, ?_, hsaid⟩
  rw [hcall]
  exact ⟨rfl, rfl, rfl, fun _ => rfl, callTag_spoken hname hspoken⟩

/-- A layout is compiled to text and calls that carry what its directives carry. -/
theorem parse_layout (hhead : '\x7b' ∉ head) (hds : ∀ d ∈ ds, d.1.Valid p registry data ∧ '\x7b' ∉ d.2)
    (space : BlockSpace) : ∃ expanded head' cs, expand p registry (layoutSource head ds) = .ok expanded ∧
      head' <:+: head ∧ List.Forall₂ Becomes ds cs ∧
        ∀ name, ∃ ss, parse space name expanded = .ok ss ∧ StmtsFor (Expr.StandsFor data) head' cs ss := by
  obtain ⟨head₁, ts, hexpand, hhead₁, hts⟩ := expand_layout hhead hds
  have hwords : ∃ qs, List.Forall₂ (fun c q => c.1.Says q.1 ∧ q.2 = c.2 ∧ '\x7b' ∉ c.2) ts qs ∧
      List.Forall₂ (fun (d : WrittenDirective × List Char) (q : List Token × List Char) => (∃ words,
        q.1 = callTokens d.1.name words ∧
          List.Forall₂ (Parser.SaidFor (Expr.StandsFor data)) d.1.carried.2 words) ∧ q.2 <:+: d.2) ds qs := by
    clear hexpand
    induction hts with
    | nil => exact ⟨[], .nil, .nil⟩
    | @cons d c ds ts hdc hrest ih =>
      obtain ⟨⟨hd, htext⟩, hds⟩ := List.forall_mem_cons.1 hds
      obtain ⟨qs, hspeaks, hsaid⟩ := ih hds
      obtain ⟨words, hcall, hprops⟩ := hdc.spoken hd
      exact ⟨(callTokens d.1.name words, c.2) :: qs,
        .cons ⟨hcall, rfl, fun hmem => htext (hdc.text.isInfix.subset hmem)⟩ hspeaks,
        .cons ⟨⟨words, rfl, hprops⟩, hdc.text.isInfix⟩ hsaid⟩
  obtain ⟨qs, hspeaks, hsaid⟩ := hwords
  obtain ⟨head', qs', htokens, hfault, hhead', hqs'⟩ :=
    tokenize_inline space hspeaks fun hmem => hhead (hhead₁.isInfix.subset hmem)
  have hcalls : ∃ cs, List.Forall₂ (CallFor (Expr.StandsFor data)) cs qs' ∧ List.Forall₂ Becomes ds cs := by
    clear htokens hfault hts hspeaks hexpand hds
    induction hqs' generalizing ds with
    | nil =>
      cases hsaid
      exact ⟨[], .nil, .nil⟩
    | @cons q q' qs qs' hq hrest ih =>
      cases hsaid with
      | @cons d _ ds _ hd hsaid =>
        obtain ⟨cs, hcs, hbecomes⟩ := ih hsaid
        obtain ⟨⟨words, hwords, hprops⟩, htext⟩ := hd
        exact ⟨(d.1.carried, q'.2) :: cs, .cons ⟨⟨words, hq.1.trans hwords, hprops⟩, rfl⟩ hcs,
          .cons ⟨rfl, hq.2.isInfix.trans htext⟩ hbecomes⟩
  obtain ⟨cs, hcs, hbecomes⟩ := hcalls
  exact ⟨_, head', cs, hexpand, hhead'.isInfix.trans hhead₁.isInfix, hbecomes, parse_inline htokens hfault hcs⟩

/-! ### From the tree to the page -/

/-- The live placeholders of a page that has no other marks. -/
theorem lives_callMarks (at_ : Nat) (head : String) (cs : List ((String × List (String × Json.Value)) × List Char)) :
    (Component.lives at_ head (callMarks cs)).map (·.2.2) = cs.map fun c => (c.1.1, .ofMembers c.1.2) := by
  induction cs generalizing at_ head with
  | nil => rfl
  | cons c cs ih =>
    rw [callMarks, List.map_cons, Component.lives, List.map_cons, List.map_cons, ← ih]
    rfl

/-- What is found in a page of placeholders is what they were made of. -/
theorem findPlaceholders_callPage {cs : List ((String × List (String × Json.Value)) × List Char)}
    (hhead : Silent (String.ofList head))
    (hcs : ∀ c ∈ cs, Silent (String.ofList c.2) ∧ (Json.Value.ofMembers c.1.2).Fits 101) :
    (Component.findPlaceholders (callPage head cs)).map (fun l => (l.placeholder.name, l.placeholder.props)) =
      cs.map fun c => (c.1.1, .ok (.ofMembers c.1.2)) := by
  have hpage : (Component.findPlaceholders (callPage head cs)).map Component.Located.view =
      (Component.lives 0 (String.ofList head) (callMarks cs)).map fun l => (l.1, l.2.1, l.2.2.1, .ok l.2.2.2) := by
    refine Component.view_page 0 hhead (List.forall_mem_map.2 fun c hc => (hcs c hc).1) fun name props t hm => ?_
    obtain ⟨c, hc, heq⟩ := List.mem_map.1 hm
    cases heq
    have hfits := (hcs c hc).2
    exact ⟨hfits.toWithin.mono (by decide), hfits.integral⟩
  have hviews := congrArg (List.map (·.2.2)) hpage
  have hlives := congrArg (List.map fun l => (l.1, (.ok l.2 : Except String Json.Value)))
    (lives_callMarks 0 (String.ofList head) cs)
  rw [List.map_map, List.map_map] at hviews hlives
  exact hviews.trans hlives

/-- Text of a layout that opens neither a tag nor a placeholder. -/
structure IsLiteral (text : List Char) : Prop where
  free : '\x7b' ∉ text
  silent : Silent (String.ofList text)

theorem renderStmts_layout (env : TemplateEnvironment) {cs : List ((String × List (String × Json.Value)) × List Char)}
    {ss : List Stmt} (h : StmtsFor (Expr.StandsFor (env.policy.secureContext data)) head cs ss)
    (hds : ∀ d ∈ ds, d.1.Valid env.policy env.registry (env.policy.secureContext data))
    (hcs : List.Forall₂ Becomes ds cs)
    (hfree : (env.policy.secureContext data).member? placeholderFunction = none) (name : String) :
    (env.renderStmts name ss data).1 = .ok (callPage head cs) := by
  have hplaceable : ∀ c ∈ cs, Placeable (env.world data) c.1.1 := by
    intro c hc
    obtain ⟨d, hd, hdc⟩ := exists_becomes hcs c hc
    rw [hdc.call]
    exact ⟨(hds d hd).allowed, (hds d hd).registered⟩
  have hdata : (env.world data).data = .ofJson (env.policy.secureContext data) := rfl
  have hserves : StmtsFor (Expr.Serves (env.world data)) head cs ss := by
    refine h.imp fun c hc => ?_
    obtain ⟨d, hd, hdc⟩ := exists_becomes hcs c hc
    rw [hdc.call]
    refine List.forall_mem_map.2 fun q hq e he => ?_
    have hfits := ((hds d hd).props q hq).value.fits
    exact he.serves hdata (hfits.ordered.portable hfits.integral)
  have hrendered := renderBody_inline hserves hplaceable hdata hfree name env.budget.reset
  rw [TemplateEnvironment.renderStmts, TemplateEnvironment.run]
  dsimp only
  rw [hrendered]
  rfl

/-- A layout of text and component directives renders, and the placeholders that are found in the output carry, in
order, the names of the directives and their props. -/
theorem findPlaceholders_layout (env : TemplateEnvironment) (data : Json.Value) (hhead : IsLiteral head)
    (hds : ∀ d ∈ ds, d.1.Valid env.policy env.registry (env.policy.secureContext data) ∧ IsLiteral d.2)
    (hfree : (env.policy.secureContext data).member? placeholderFunction = none) :
    ∃ out, (env.renderString (String.ofList (layoutSource head ds)) data).1 = .ok out ∧
      (∀ name, ∃ ss, TemplateEnvironment.compileSource env.policy env.registry name
          (String.ofList (layoutSource head ds)) = .ok ss ∧
        (Entries.get? name env.templates = some ss → (env.render name data).1 = .ok out)) ∧
      (Component.findPlaceholders out).map (fun l => (l.placeholder.name, l.placeholder.props)) =
        ds.map (fun d => (d.1.name, .ok d.1.payload)) ∧
      ∀ d ∈ ds, ∀ q ∈ d.1.props, d.1.payload.member? q.key = some q.value := by
  obtain ⟨expanded, head', cs, hexpand, hhead', hcs, hparse⟩ := parse_layout hhead.free
    (fun d hd => ⟨(hds d hd).1, (hds d hd).2.free⟩) TemplateEnvironment.blockSpace
  have hvalid : ∀ d ∈ ds, d.1.Valid env.policy env.registry (env.policy.secureContext data) := fun d hd => (hds d hd).1
  refine ⟨callPage head' cs, ?_, fun name => ?_, ?_, fun d hd q hq => (hvalid d hd).member?_payload hq⟩
  · obtain ⟨ss, hss, hfor⟩ := hparse TemplateEnvironment.unnamed
    rw [TemplateEnvironment.renderString, String.toList_ofList, hexpand]
    dsimp only
    rw [hss]
    exact renderStmts_layout env hfor hvalid hcs hfree _
  · obtain ⟨ss, hss, hfor⟩ := hparse name
    refine ⟨ss, ?_, fun hget => ?_⟩
    · rw [TemplateEnvironment.compileSource, String.toList_ofList, hexpand]
      dsimp only [bind, Except.bind]
      rw [hss]
    · rw [TemplateEnvironment.render, hget]
      exact renderStmts_layout env hfor hvalid hcs hfree name
  · have hfound : ∀ c ∈ cs, Silent (String.ofList c.2) ∧ (Json.Value.ofMembers c.1.2).Fits 101 := by
      intro c hc
      obtain ⟨d, hd, hdc⟩ := exists_becomes hcs c hc
      refine ⟨(hds d hd).2.silent.part hdc.text, ?_⟩
      rw [hdc.call]
      exact (hvalid d hd).payload_fits
    rw [findPlaceholders_callPage (hhead.silent.part hhead') hfound, eq_comm]
    refine List.forall₂_eq_eq_eq.le _ _ ?_
    rw [List.forall₂_map_left_iff, List.forall₂_map_right_iff]
    refine hcs.imp fun d c hdc => ?_
    rw [hdc.call]
    rfl

/-- Rules that let `A` be placed and bound to what stands under `input`. -/
def placingRules : TemplateEnvironment :=
  { policy := ⟨⟨some ["A"]⟩, ⟨["input"]⟩, .empty, 10, 1000⟩
    registry := some { components := [("A", ⟨"A", .custom, none, .ready ⟨"A", fun props => .ok props.compact⟩⟩)] }
    budget := { max := 1000 } }

/-- Braces and a quote in a list. -/
def bracesData : Json.Value :=
  .object [("input", .object [("items", .list [.text "\x7b\x7b", .text "%\x7d'"])])]

/-- A prop of every kind. -/
def everyKind : List WrittenProp :=
  [⟨[' '], "t", inQuotes '\'' "it's \\ \"".toList, .text "it's \\ \""⟩, ⟨[' '], "u", "7".toList, .ofNat 7⟩,
    ⟨[' '], "n", "-7".toList, .ofInt (-7)⟩, ⟨[' '], "b", "True".toList, .bool true⟩, ⟨[' '], "z", "null".toList, .null⟩,
    ⟨[' '], "v", "input.items[1]".toList, .text "%\x7d'"⟩]

/-- A line of its own, and a tag whose signs take the blanks around it along. -/
def twoDirectives : List (WrittenDirective × List Char) :=
  [(⟨.none, [' '], [' '], none, "A", everyKind, [' '], .none⟩, "\n</p> ".toList),
    (⟨.minus, [], [], some '"', "A", [], [], .minus⟩, " <p>".toList)]

theorem everyKind_valid :
    ∀ q ∈ everyKind, q.Valid placingRules.policy (placingRules.policy.secureContext bracesData) := by
  have hplain {n : String} (hid : Text.isIdentifier n = true)
      (hopen : Text.stripStart reservedBeginning n.toList = none) : IsPlainName n := ⟨hid, hopen⟩
  have hgap : Blanks [' '] := List.forall_mem_singleton.2 rfl
  have hprop {key : String} {source : List Char} {value : Json.Value} (hkey : IsPlainName key)
      (hvalue : Denotes placingRules.policy (placingRules.policy.secureContext bracesData) source value) :
      WrittenProp.Valid placingRules.policy (placingRules.policy.secureContext bracesData)
        ⟨[' '], key, source, value⟩ :=
    ⟨hgap, List.cons_ne_nil _ _, hkey, hvalue⟩
  have hpath : Resolves (placingRules.policy.secureContext bracesData) "input.items[1]".toList (.text "%\x7d'") := by
    have hinput : Resolves (placingRules.policy.secureContext bracesData) "input".toList
        (.object [("items", .list [.text "\x7b\x7b", .text "%\x7d'"])]) :=
      .root (hplain (by decide) (by decide)) (by decide) rfl
    have hitems := hinput.member (hplain (n := "items") (by decide) (by decide)) rfl
    have hitem : Resolves (placingRules.policy.secureContext bracesData) (_ ++ '[' :: (['1'] ++ [']'])) _ :=
      .item hitems rfl (by decide) rfl
    exact hitem
  have hnegative : Denotes placingRules.policy (placingRules.policy.secureContext bracesData) ('-' :: ['7']) _ :=
    .negative (by decide) (by decide)
  simp only [everyKind, List.forall_mem_cons, List.not_mem_nil, false_implies, implies_true, and_true]
  refine ⟨hprop (hplain (by decide) (by decide)) (.text (.inr rfl) "it's \\ \""),
    hprop (hplain (by decide) (by decide)) (.integer (by decide) (by decide)),
    hprop (hplain (by decide) (by decide)) hnegative,
    hprop (hplain (by decide) (by decide)) (.bool (by decide)),
    hprop (hplain (by decide) (by decide)) (.null (by decide)),
    hprop (hplain (by decide) (by decide)) (.binding hpath (by decide) (by decide +kernel) ?_)⟩
  exact ⟨⟨.text _, Nat.zero_le _⟩, .text _⟩

theorem findPlaceholders_layout_everyKind : ∃ out,
    (placingRules.renderString (String.ofList (layoutSource "<p>\n".toList twoDirectives)) bracesData).1 = .ok out ∧
      (Component.findPlaceholders out).map (fun l => (l.placeholder.name, l.placeholder.props)) =
        [("A", .ok (.object [("b", .bool true), ("n", .ofInt (-7)), ("t", .text "it's \\ \""),
          ("u", .ofNat 7), ("v", .text "%\x7d'"), ("z", .null)])), ("A", .ok (.object []))] := by
  have hliteral {text : List Char} (hfree : '\x7b' ∉ text) (hsilent : ¬Component.nameOpener <:+: text) :
      IsLiteral text := ⟨hfree, by rwa [Silent, String.toList_ofList]⟩
  have hds : ∀ d ∈ twoDirectives, d.1.Valid placingRules.policy placingRules.registry
      (placingRules.policy.secureContext bracesData) ∧ IsLiteral d.2 := by
    have hnil : Blanks [] := fun c hc => absurd hc List.not_mem_nil
    have hgap : Blanks [' '] := List.forall_mem_singleton.2 rfl
    have hname : ∀ r ∈ placingRules.registry, r.contains "A" = true := fun r hr => by
      cases hr
      rfl
    refine List.forall_mem_cons.2 ⟨⟨?_, hliteral (by decide) (by decide +kernel)⟩, List.forall_mem_singleton.2
      ⟨?_, hliteral (by decide) (by decide +kernel)⟩⟩
    · refine ⟨hgap, hgap, hgap, by decide, fun q hq => absurd hq (Option.not_mem_none q), fun _ =>
        ⟨List.cons_ne_nil _ _, fun pre post h => ?_, fun _ u hu => ?_⟩, by decide, hname, by decide, everyKind_valid⟩
      · have hlength : 1 = pre.length + (reservedBeginning.length + post.length) := by
          simpa using congrArg List.length h
        have hfive : reservedBeginning.length = 5 := rfl
        omega
      · have hlast := congrArg List.getLast? hu
        rw [List.getLast?_append_of_ne_nil] at hlast
        · exact absurd hlast (by decide +kernel)
        · exact List.cons_ne_nil _ _
    · refine ⟨hnil, hnil, hnil, by decide, fun q hq => .inl (Option.mem_some.1 hq).symm, fun h => absurd h (by decide),
        by decide, hname, by decide, fun q hq => absurd hq List.not_mem_nil⟩
  have hhead : IsLiteral "<p>\n".toList := hliteral (by decide) (by decide +kernel)
  obtain ⟨out, hout, -, hfound, -⟩ := findPlaceholders_layout placingRules bracesData hhead hds rfl
  exact ⟨out, hout, hfound.trans rfl⟩

/-- A directive with a key that begins like the names that are set aside. -/
def reservedKey : WrittenDirective :=
  ⟨.none, [' '], [' '], none, "A", [⟨[' '], "__lg_k", "1".toList, .ofNat 1⟩], [' '], .none⟩

/-- A key that is set aside is refused, although it is an identifier and its value denotes something. -/
theorem renderString_reservedKey : placingRules.policy.validateComponent reservedKey.name = true ∧
    (∀ r ∈ placingRules.registry, r.contains reservedKey.name = true) ∧
    (∀ q ∈ reservedKey.props, Text.isIdentifier q.key = true ∧
      Denotes placingRules.policy (placingRules.policy.secureContext .null) q.source q.value) ∧
    (placingRules.renderString (String.ofList (layoutSource [] [(reservedKey, [])])) .null).1 =
      .error (.badSyntax "identifier __lg_k is reserved" (some 1)) := by
  have hsource : layoutSource [] [(reservedKey, [])] = '\x7b' :: "% component A __lg_k=1 %\x7d".toList := rfl
  have hpiece : piece 1 '\x7b' "% component A __lg_k=1 %\x7d".toList =
      .error (.badSyntax "identifier __lg_k is reserved" (some 1)) := rfl
  have hscan : scan (layoutSource [] [(reservedKey, [])]) =
      .error (.badSyntax "identifier __lg_k is reserved" (some 1)) := by
    rw [hsource, scan, scanFrom]
    split
    · next heq => exact congrArg Except.error (Except.error.inj (heq.symm.trans hpiece))
    · next heq => cases heq.symm.trans hpiece
  refine ⟨by decide, fun r hr => ?_, List.forall_mem_singleton.2 ⟨by decide, .integer (by decide) (by decide)⟩, ?_⟩
  · cases hr
    rfl
  · rw [TemplateEnvironment.renderString, String.toList_ofList, expand, hscan]
    rfl

end SecureLayout.Template
