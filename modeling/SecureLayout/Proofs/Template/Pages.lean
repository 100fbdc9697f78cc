import SecureLayout.Proofs.Template.Directives

/-!
Layouts made of text and component directives. Main statements: the expansion puts the replacements of the directives
in their places, `expand_inline`, and where they are written so that they denote something, these are calls that denote
their props, `expand_layout`.
-/

namespace SecureLayout.Template

/-! ### Text and tags -/

/-- Tags with the text in front of the first and the text behind each. -/
def inline (head : List Char) : List (Tag × List Char) → List Chunk
  | [] => chars head
  | (t, text) :: rest => chars head ++ .tag t :: inline text rest

theorem cutSource_inline (head : List Char) (t : Tag) (text : List Char) (rest : List (Tag × List Char)) :
    cutSource (inline head ((t, text) :: rest)) = head ++ (t.source ++ cutSource (inline text rest)) := by
  rw [inline, cutSource_append, cutSource_chars, cutSource_cons, Chunk.source_tag]

theorem leadingText_inline (head : List Char) (ts : List (Tag × List Char)) :
    leadingText ((inline head ts).flatMap Chunk.pieces) = head := by
  induction head with
  | nil => cases ts <;> rfl
  | cons c head ih =>
    cases ts with
    | nil => exact congrArg (c :: ·) ih
    | cons t ts => exact congrArg (c :: ·) ih

theorem inline_append (b u : List Char) (ts : List (Tag × List Char)) :
    inline (b ++ u) ts = chars b ++ inline u ts := by
  cases ts with
  | nil => exact chars_append b u
  | cons t ts =>
    change chars (b ++ u) ++ _ = chars b ++ (chars u ++ _)
    rw [chars_append, List.append_assoc]

/-- A character that opens nothing, or a tag that the scanner takes by itself. -/
def Chunk.IsInline : Chunk → Prop
  | .char c => c ≠ '\x7b'
  | .tag t => t.IsScanned ∧ t.reserved? = none ∧ t.isRaw = false
  | _ => False

theorem piece_inline {k : Chunk} (hk : k.IsInline) (line : Nat) (s : List Char) :
    ∃ c r, k.source ++ s = c :: r ∧ piece line c r = .ok (k.pieces, s) := by
  cases k with
  | char c =>
    refine ⟨c, s, rfl, ?_⟩
    have hc : c ≠ '\x7b' := hk
    unfold piece
    split <;> first | contradiction | rfl
  | comment text => cases hk
  | raw t section_ => cases hk
  | tag t =>
    obtain ⟨hscan, hfree, hraw⟩ := hk
    refine ⟨'\x7b', _, by rw [Chunk.source_tag, Tag.source_append], ?_⟩
    have hraw' : ¬(decide (t.kind = .block) && decide (t.keyword = "raw".toList)) = true := by
      intro h
      obtain ⟨hkind, hkey⟩ := (Bool.and_eq_true _ _).mp h
      rw [Tag.isRaw, of_decide_eq_true hkind, of_decide_eq_true hkey] at hraw
      cases hraw
    have hkind : tagKind? t.kind.opens = some t.kind := by cases t.kind <;> rfl
    have hhash : t.kind.opens ≠ '#' := by cases t.kind <;> decide
    unfold piece
    split
    · next heq => exact absurd (List.cons.inj heq).1 hhash
    · next heq =>
      obtain ⟨rfl, rfl⟩ := List.cons.inj heq
      rw [hkind]
      dsimp only
      rw [hscan.tag?]
      dsimp only
      rw [hfree]
      dsimp only
      rw [if_neg hraw']
      rfl
    · next hnone => exact absurd rfl (hnone _ _ rfl)

theorem scanFrom_cons {line : Nat} {c : Char} {s rest : List Char} {ps more : List Piece}
    (h : piece line c s = .ok (ps, rest))
    (hmore : scanFrom (line + lineEnds (ps.flatMap Piece.source)) rest = .ok more) :
    scanFrom line (c :: s) = .ok (ps ++ more) := by
  rw [scanFrom]
  split
  · next heq =>
    rw [h] at heq
    cases heq
  · next heq =>
    rw [h] at heq
    cases heq
    rw [hmore]

/-- The scanner takes plain chunks apart as they were put together. -/
theorem scanFrom_inline {ks : List Chunk} (hks : ∀ k ∈ ks, k.IsInline) (line : Nat) :
    scanFrom line (cutSource ks) = .ok (ks.flatMap Chunk.pieces) := by
  induction ks generalizing line with
  | nil => rw [cutSource_nil, scanFrom]; rfl
  | cons k ks ih =>
    obtain ⟨hk, hks⟩ := List.forall_mem_cons.1 hks
    obtain ⟨c, r, hsource, hpiece⟩ := piece_inline hk line (cutSource ks)
    rw [cutSource_cons, hsource, List.flatMap_cons]
    exact scanFrom_cons hpiece (ih hks _)

/-! ### Replacements -/

/-- What is left of a text that lost blanks at its ends, if anything. -/
def Trims (text rest : List Char) : Prop :=
  ∃ b b', text = b ++ (rest ++ b') ∧ Blanks b ∧ Blanks b'

theorem Trims.refl (text : List Char) : Trims text text :=
  ⟨[], [], by simp, fun _ h => absurd h List.not_mem_nil, fun _ h => absurd h List.not_mem_nil⟩

theorem Trims.trans {text mid rest : List Char} (h : Trims text mid) (h' : Trims mid rest) : Trims text rest := by
  obtain ⟨b, b', rfl, hb, hb'⟩ := h
  obtain ⟨c, c', rfl, hc, hc'⟩ := h'
  exact ⟨b ++ c, c' ++ b', by simp, List.forall_mem_append.2 ⟨hb, hc⟩, List.forall_mem_append.2 ⟨hc', hb'⟩⟩

theorem Trims.of_front {b : List Char} (hb : Blanks b) (rest : List Char) : Trims (b ++ rest) rest :=
  ⟨b, [], by simp, hb, fun _ h => absurd h List.not_mem_nil⟩

theorem Trims.of_back {b : List Char} (hb : Blanks b) (rest : List Char) : Trims (rest ++ b) rest :=
  ⟨[], b, rfl, fun _ h => absurd h List.not_mem_nil, hb⟩

theorem Trims.isInfix {text rest : List Char} (h : Trims text rest) : rest <:+: text := by
  obtain ⟨b, b', rfl, -, -⟩ := h
  exact ⟨b, b', List.append_assoc ..⟩

/-- The expansion reads the tag as this directive. -/
structure Tag.Directs (t : Tag) (d : Directive) : Prop where
  role : t.role = .directive
  parse : Directive.parse t.args = .ok d

/-- Text with something in the place of every directive. -/
def replaced (head : List Char) : List (Directive.Replacement × List Char) → List Char
  | [] => head
  | (r, text) :: rest => head ++ (r.source ++ replaced text rest)

variable {p : SecurityPolicy} {registry : Option Component.Registry} {data : Json.Value}

/-- What stands in the place of a directive, and the text behind it that has lost nothing but blanks at its ends. -/
structure StandsIn (p : SecurityPolicy) (registry : Option Component.Registry) (d : (Tag × Directive) × List Char)
    (r : Directive.Replacement × List Char) : Prop where
  replacement : r.1 = d.1.2.replacement p registry
  text : Trims d.2 r.2

theorem expandPieces_inline {ds : List ((Tag × Directive) × List Char)} (hds : ∀ d ∈ ds, d.1.1.Directs d.1.2)
    (head : List Char) {e : Expansion} (he : e.pending = []) : ∃ head' rs,
      expandPieces p registry ((inline head (ds.map fun d => (d.1.1, d.2))).flatMap Chunk.pieces) 0 e =
        .ok (replaced head' rs) ∧ Trims head head' ∧ List.Forall₂ (StandsIn p registry) ds rs := by
  induction ds generalizing head e with
  | nil =>
    refine ⟨head, [], ?_, .refl head, .nil⟩
    have hchars : expandPieces p registry ((chars head).flatMap Chunk.pieces ++ []) 0 e = _ :=
      expandPieces_chars head [] e
    rw [List.append_nil] at hchars
    change expandPieces p registry ((chars head).flatMap Chunk.pieces) 0 e = .ok head
    rw [hchars, expandPieces, Expansion.copy, he, List.append_nil, List.reverse_reverse]
  | cons d ds ih =>
    obtain ⟨⟨t, dir⟩, text⟩ := d
    obtain ⟨⟨hrole, hparse⟩, hds⟩ := List.forall_mem_cons.1 hds
    obtain ⟨b, u, htext, hb, hskip⟩ := Expansion.droppedAfter_drops t.trail text
    obtain ⟨b', u', hpending, hb', hbefore⟩ := Expansion.before_drops (e.copy head) t.lead
    obtain ⟨e', he', -, hafter⟩ : ∃ e' : Expansion, e'.pending = [] ∧ _ ∧ expandPieces p registry
        (_ ++ (inline u (ds.map fun d => (d.1.1, d.2))).flatMap Chunk.pieces) b.length _ = _ :=
      expandPieces_skip b _ ((e.copy head).afterTag t)
    obtain ⟨text', rs, hmore, htext', hrs⟩ := ih hds u he'
    refine ⟨u'.reverse, (dir.replacement p registry, text') :: rs, ?_, ?_, .cons ⟨rfl, ?_⟩ hrs⟩
    · rw [List.map_cons, inline, List.flatMap_append, expandPieces_chars, List.flatMap_cons]
      change expandPieces p registry
        (.tag t :: (inline text (ds.map fun d => (d.1.1, d.2))).flatMap Chunk.pieces) 0 (e.copy head) = _
      rw [expandPieces, hrole]
      dsimp only
      rw [hparse]
      dsimp only
      rw [leadingText_inline, hskip, hbefore, htext, inline_append, List.flatMap_append, hafter, hmore]
      rfl
    · have hwritten : head = u'.reverse ++ b'.reverse := by
        rw [Expansion.copy, he, List.append_nil] at hpending
        rw [← List.reverse_append, ← hpending, List.reverse_reverse]
      rw [hwritten]
      exact .of_back (fun c hc => hb' c (List.mem_reverse.1 hc)) _
    · change Trims text text'
      rw [htext]
      exact (Trims.of_front hb u).trans htext'

/-- The expansion of text and directives has their replacements in their places. -/
theorem expand_inline {source head : List Char} {ds : List ((Tag × Directive) × List Char)}
    (hscan : scan source = .ok ((inline head (ds.map fun d => (d.1.1, d.2))).flatMap Chunk.pieces))
    (hds : ∀ d ∈ ds, d.1.1.Directs d.1.2) : ∃ head' rs, expand p registry source = .ok (replaced head' rs) ∧
      Trims head head' ∧ List.Forall₂ (StandsIn p registry) ds rs := by
  obtain ⟨head', rs, hexpand, hhead', hrs⟩ := expandPieces_inline hds head (e := {}) rfl
  refine ⟨head', rs, ?_, hhead', hrs⟩
  rw [expand, hscan]
  exact hexpand

/-! ### Layouts -/

/-- The source of a layout: text, and directives each with text behind it. -/
def layoutSource (head : List Char) (ds : List (WrittenDirective × List Char)) : List Char :=
  cutSource (inline head (ds.map fun d => (d.1.tag, d.2)))

/-- A call that stands in the place of a directive: it names the component, its values denote the props, and the text
behind it has lost nothing but blanks at its ends. -/
structure Replaces (data : Json.Value) (d : WrittenDirective × List Char) (c : Tag × List Char) : Prop where
  call : ∃ texts, c.1 = callTag d.1.name texts ∧
    List.Forall₂ (fun q t => t.1 = q.key ∧ Means data t.2 q.value) d.1.props texts
  text : Trims d.2 c.2

theorem WrittenDirective.Valid.isInline {d : WrittenDirective} (h : d.Valid p registry data) :
    (Chunk.tag d.tag).IsInline := by
  refine ⟨h.isScanned, h.reserved?, ?_⟩
  rw [Tag.isRaw, h.keyword.1]
  rfl

theorem inline_isInline {head : List Char} {ds : List (WrittenDirective × List Char)} (hhead : '\x7b' ∉ head)
    (hds : ∀ d ∈ ds, d.1.Valid p registry data ∧ '\x7b' ∉ d.2) :
    ∀ k ∈ inline head (ds.map fun d => (d.1.tag, d.2)), k.IsInline := by
  have htext {w : List Char} (hw : '\x7b' ∉ w) : ∀ k ∈ chars w, k.IsInline := by
    refine List.forall_mem_map.2 fun c hc => ?_
    change c ≠ '\x7b'
    rintro rfl
    exact hw hc
  induction ds generalizing head with
  | nil => exact htext hhead
  | cons d ds ih =>
    obtain ⟨⟨hvalid, hd⟩, hds⟩ := List.forall_mem_cons.1 hds
    refine List.forall_mem_append.2 ⟨htext hhead, List.forall_mem_cons.2 ⟨hvalid.isInline, ih hd hds⟩⟩

/-- A directive as it is written and as it is read: its replacement is a call whose values denote the props. -/
structure ReadAs (p : SecurityPolicy) (registry : Option Component.Registry) (data : Json.Value)
    (d : WrittenDirective × List Char) (d' : (Tag × Directive) × List Char) : Prop where
  call : ∃ texts, d'.1.2.replacement p registry = .call d.1.name texts ∧
    List.Forall₂ (fun q t => t.1 = q.key ∧ Means data t.2 q.value) d.1.props texts
  text : d'.2 = d.2

theorem exists_readAs {ds : List (WrittenDirective × List Char)} (hds : ∀ d ∈ ds, d.1.Valid p registry data) :
    ∃ ds' : List ((Tag × Directive) × List Char), ds'.map (fun d => (d.1.1, d.2)) = ds.map (fun d => (d.1.tag, d.2)) ∧
      (∀ d ∈ ds', d.1.1.Directs d.1.2) ∧ List.Forall₂ (ReadAs p registry data) ds ds' := by
  induction ds with
  | nil => exact ⟨[], rfl, fun d hd => absurd hd List.not_mem_nil, .nil⟩
  | cons d ds ih =>
    obtain ⟨hd, hds⟩ := List.forall_mem_cons.1 hds
    obtain ⟨ds', hsame, hdirects, hall⟩ := ih hds
    obtain ⟨dir, texts, hparse, hreplacement, hprops⟩ := hd.replacement
    have hargs : Directive.parse d.1.tag.args = .ok dir := by rw [hd.keyword.2, hparse]
    exact ⟨((d.1.tag, dir), d.2) :: ds', by rw [List.map_cons, hsame, List.map_cons],
      List.forall_mem_cons.2 ⟨⟨hd.role, hargs⟩, hdirects⟩, .cons ⟨⟨texts, hreplacement, hprops⟩, rfl⟩ hall⟩

/-- Replacements that are calls are tags. -/
theorem replaced_calls {ds : List (WrittenDirective × List Char)} {ds' : List ((Tag × Directive) × List Char)}
    {rs : List (Directive.Replacement × List Char)} (h : List.Forall₂ (ReadAs p registry data) ds ds')
    (hrs : List.Forall₂ (StandsIn p registry) ds' rs) (head : List Char) :
    ∃ cs, replaced head rs = cutSource (inline head cs) ∧ List.Forall₂ (Replaces data) ds cs := by
  induction h generalizing rs head with
  | nil =>
    cases hrs
    exact ⟨[], (cutSource_chars head).symm, .nil⟩
  | @cons d d' ds ds' hdd hrest ih =>
    cases hrs with
    | @cons _ r _ rs hr hrs =>
      obtain ⟨r, text⟩ := r
      obtain ⟨hreplacement, htext⟩ := hr
      obtain ⟨⟨texts, hcall, hprops⟩, hsame⟩ := hdd
      obtain rfl : r = .call d.1.name texts := hreplacement.trans hcall
      obtain ⟨cs, hsource, hcs⟩ := ih hrs text
      refine ⟨(callTag d.1.name texts, text) :: cs, ?_, .cons ⟨⟨texts, rfl, hprops⟩, hsame ▸ htext⟩ hcs⟩
      rw [replaced, hsource, cutSource_inline, callTag_source]

/-- The expansion of a layout has a call in the place of every directive. -/
theorem expand_layout {head : List Char} {ds : List (WrittenDirective × List Char)} (hhead : '\x7b' ∉ head)
    (hds : ∀ d ∈ ds, d.1.Valid p registry data ∧ '\x7b' ∉ d.2) : ∃ head' cs,
      expand p registry (layoutSource head ds) = .ok (cutSource (inline head' cs)) ∧ Trims head head' ∧
        List.Forall₂ (Replaces data) ds cs := by
  obtain ⟨ds', hsame, hdirects, hall⟩ := exists_readAs fun d hd => (hds d hd).1
  have hscan : scan (layoutSource head ds) =
      .ok ((inline head (ds'.map fun d => (d.1.1, d.2))).flatMap Chunk.pieces) := by
    rw [scan, layoutSource, scanFrom_inline (inline_isInline hhead hds), hsame]
  obtain ⟨head', rs, hexpand, hhead', hrs⟩ := expand_inline hscan hdirects
  obtain ⟨cs, hsource, hcs⟩ := replaced_calls hall hrs head'
  exact ⟨head', cs, hexpand.trans (congrArg Except.ok hsource), hhead', hcs⟩

end SecureLayout.Template
