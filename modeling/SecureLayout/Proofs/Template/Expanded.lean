import SecureLayout.Proofs.Template.Calls

/-!
What the expansion makes of a source that is cut into chunks. Main statement: it copies chunks, puts a tick
behind every tag of a loop, and puts markup or a call in the place of a directive and the blanks beside it.
-/

namespace SecureLayout.Template

open Directive

def chars (s : List Char) : List Chunk :=
  s.map Chunk.char

theorem chars_append (a b : List Char) : chars (a ++ b) = chars a ++ chars b :=
  List.map_append

theorem cutSource_chars (s : List Char) : cutSource (chars s) = s := by
  induction s with
  | nil => rfl
  | cons c s ih =>
    rw [chars, List.map_cons, cutSource_cons, Chunk.source_char]
    exact congrArg _ ih

def Blanks (s : List Char) : Prop :=
  ∀ c ∈ s, Text.isBlank c = true

/-- Markup that opens no tag of a template, whatever stands in front of it. -/
structure IsMarkup (s : List Char) : Prop where
  head : s.head? = some '<'
  brace_free : '\x7b' ∉ s

/-- The expansion copies the chunk. -/
def Chunk.IsCopied : Chunk → Prop
  | .tag t => t.role = .other ∨ t.role = .endLoop
  | _ => True

/-- A source and its expansion, chunk by chunk. -/
inductive Expanded : List Chunk → List Chunk → Prop
  | nil : Expanded [] []
  | copy {k : Chunk} {ks kx : List Chunk} (hk : k.IsCopied) (h : Expanded ks kx) : Expanded (k :: ks) (k :: kx)
  | loop {t : Tag} {ks kx : List Chunk} (ht : t.role = .loop) (h : Expanded ks kx) :
      Expanded (.tag t :: ks) (.tag t :: .tag (tickTag t.trail) :: kx)
  | block {t : Tag} {b b' html : List Char} {ks kx : List Chunk} (ht : t.role = .directive) (hb : Blanks b)
      (hb' : Blanks b') (hhtml : IsMarkup html) (h : Expanded ks kx) :
      Expanded (chars b ++ .tag t :: (chars b' ++ ks)) (chars html ++ kx)
  | call {t : Tag} {b b' : List Char} {name : String} {props : List (String × List Char)} {ks kx : List Chunk}
      (ht : t.role = .directive) (hb : Blanks b) (hb' : Blanks b') (hname : GoodName name)
      (hprops : ∀ p ∈ props, GoodProp p.1 p.2) (h : Expanded ks kx) :
      Expanded (chars b ++ .tag t :: (chars b' ++ ks)) (.tag (callTag name props) :: kx)

theorem Expanded.copies {pre ks kx : List Chunk} (hpre : ∀ k ∈ pre, k.IsCopied) (h : Expanded ks kx) :
    Expanded (pre ++ ks) (pre ++ kx) := by
  induction pre with
  | nil => exact h
  | cons k pre ih =>
    exact .copy (hpre k List.mem_cons_self) (ih fun a ha => hpre a (List.mem_cons_of_mem _ ha))

/-! ### What directives are replaced by -/

theorem escapeText_brace_free (s : String) : '\x7b' ∉ (Component.escapeText s).toList := by
  rw [Component.escapeText, String.toList_ofList]
  intro hmem
  obtain ⟨c, -, hc⟩ := List.mem_flatMap.1 hmem
  unfold Component.escapeChar at hc
  split at hc
  all_goals first
    | (revert hc; decide)
    | skip
  next hbrace _ =>
    exact hbrace (List.mem_singleton.1 hc).symm

theorem append_brace_free {a b : String} (ha : '\x7b' ∉ a.toList) (hb : '\x7b' ∉ b.toList) :
    '\x7b' ∉ (a ++ b).toList := by
  rw [String.toList_append, List.mem_append, not_or]
  exact ⟨ha, hb⟩

theorem append_head? {a b : String} {c : Char} (h : a.toList.head? = some c) : (a ++ b).toList.head? = some c := by
  rw [String.toList_append, List.head?_append, h]
  rfl

theorem errorBlock_isMarkup (m : Component.Marker) (name message : String) :
    IsMarkup (Component.errorBlock m name message).toList := by
  have hmarker : '\x7b' ∉ m.text.toList := by cases m <;> decide
  have hopen := append_brace_free (append_brace_free (append_brace_free
    (a := "<div class=\"layout-error\" data-layout-error=\"") (by decide +kernel) hmarker)
    (b := "\" data-component-name=\"") (by decide +kernel)) (escapeText_brace_free name)
  have hhead : "<div class=\"layout-error\" data-layout-error=\"".toList.head? = some '<' := by decide +kernel
  exact ⟨append_head? (append_head? (append_head? (append_head? (append_head? (append_head? hhead))))),
    append_brace_free (append_brace_free (append_brace_free hopen (by decide)) (escapeText_brace_free message))
      (by decide)⟩

/-- A directive is replaced by markup without braces or by a call that is read as it was meant. -/
theorem replacement_good {policy : SecurityPolicy} {registry : Option Component.Registry} {d : Directive}
    (hprops : ∀ p ∈ d.props, GoodProp p.1 p.2.text) :
    (∃ html, d.replacement policy registry = .block html ∧ IsMarkup html.toList) ∨
      ∃ props, d.replacement policy registry = .call d.name props ∧ ∀ p ∈ props, GoodProp p.1 p.2 := by
  unfold replacement
  split
  · exact .inl ⟨_, rfl, errorBlock_isMarkup _ _ _⟩
  · split
    · exact .inl ⟨_, rfl, errorBlock_isMarkup _ _ _⟩
    · split
      · next props h => exact .inr ⟨props, rfl, permitted_good h hprops⟩
      · exact .inl ⟨_, rfl, errorBlock_isMarkup _ _ _⟩

/-- Behind the keyword of a tag nothing is reserved unless the tag holds a reserved name. -/
theorem Tag.args_unreserved {t : Tag} (h : t.reserved? = none) (hkey : t.keyword ≠ []) :
    reservedName? (.outside .code) t.args = none := by
  have htrim : ∀ {b : List Char}, reservedName? (.outside .code) b = none →
      reservedName? (.outside .code) (Text.trimStart b) = none := by
    intro b hb
    induction b with
    | nil => exact hb
    | cons c b ih =>
      by_cases hc : Text.isBlank c = true
      · obtain ⟨hpart, hnext⟩ := isBlank_quiet hc
        rw [reservedName?_outside, start_of_quiet hpart hnext] at hb
        rw [Text.trimStart, List.dropWhile_cons_of_pos hc]
        exact ih hb
      · rw [Text.trimStart, List.dropWhile_cons_of_neg hc]
        exact hb
  have hbody := htrim h
  unfold Tag.args
  unfold Tag.keyword at hkey
  cases hb : Text.trimStart t.body with
  | nil =>
    rw [hb] at hkey
    exact absurd rfl hkey
  | cons c r =>
    rw [hb] at hbody hkey
    by_cases hc : Text.isNamePart c = true
    · rw [reservedName?_outside] at hbody
      rw [List.dropWhile_cons_of_pos hc]
      refine reservedName?_letters (start_quiet (isFlat_of_isNamePart hc).1) ?_ hbody
      unfold Naming.start
      split_ifs with hstart hdigit
      · rintro ⟨⟩
      · rintro ⟨⟩
      · exfalso
        simp only [Text.isNamePart, Text.isNameStart, Char.isAlphanum, Bool.or_eq_true] at hc hstart hdigit
        tauto
    · rw [List.takeWhile_cons_of_neg hc] at hkey
      exact absurd rfl hkey

/-! ### Blanks beside directives -/

/-- The last character is no blank. -/
def EndsSolid (s : List Char) : Prop :=
  ∃ v c, s = v ++ [c] ∧ Text.isBlank c = false

theorem Tag.endsSolid (t : Tag) : EndsSolid t.source :=
  ⟨'\x7b' :: t.kind.opens :: (t.lead.source ++ (t.body ++ (t.trail.source ++ [t.kind.closes]))), '\x7d',
    by simp [Tag.source], by decide⟩

theorem PlainEnd.endsSolid {s : List Char} (h : PlainEnd s) : EndsSolid s := by
  obtain ⟨text, lead, b, b', trail, -, -, rfl⟩ := h
  exact ⟨text ++ '\x7b' :: '%' :: (lead.source ++ (b ++ ("endraw".toList ++ (b' ++ (trail.source ++ ['%']))))), '\x7d',
    by simp [rawEndTag], by decide⟩

theorem EndsSolid.append {s : List Char} (u : List Char) (h : EndsSolid s) : EndsSolid (u ++ s) := by
  obtain ⟨v, c, rfl, hc⟩ := h
  exact ⟨u ++ v, c, by simp, hc⟩

/-- A character, or a chunk that no blank ends. -/
def Chunk.IsSolid (k : Chunk) : Prop :=
  (∃ c, k = .char c) ∨ EndsSolid k.source

theorem chars_reverse (s : List Char) : chars s.reverse = (chars s).reverse :=
  List.map_reverse

/-- The text of chunks that are held nearest first, its last character first. -/
def heldText (near : List Chunk) : List Char :=
  (cutSource near.reverse).reverse

theorem heldText_cons (k : Chunk) (near : List Chunk) : heldText (k :: near) = k.source.reverse ++ heldText near := by
  simp [heldText]

theorem heldText_reverse (near : List Chunk) : (heldText near).reverse = cutSource near.reverse :=
  List.reverse_reverse _

/-- Blanks at the end of a source are chunks of their own. -/
theorem split_blanks {near : List Chunk} (hnear : ∀ k ∈ near, k.IsSolid) {b u : List Char} (hb : Blanks b)
    (h : heldText near = b ++ u) : ∃ near', near = chars b ++ near' ∧ heldText near' = u := by
  induction b generalizing near with
  | nil => exact ⟨near, rfl, h⟩
  | cons c b ih =>
    have hc := hb c List.mem_cons_self
    cases near with
    | nil => cases h
    | cons k near =>
      rw [heldText_cons] at h
      rcases hnear k List.mem_cons_self with ⟨a, rfl⟩ | ⟨v, a, hv, ha⟩
      · change a :: heldText near = c :: (b ++ u) at h
        obtain ⟨rfl, hs⟩ := List.cons.inj h
        obtain ⟨near', rfl, hu⟩ := ih (fun k hk => hnear k (List.mem_cons_of_mem _ hk))
          (fun x hx => hb x (List.mem_cons_of_mem _ hx)) hs
        exact ⟨near', rfl, hu⟩
      · rw [hv, List.reverse_append] at h
        obtain ⟨rfl, -⟩ := List.cons.inj h
        rw [hc] at ha
        cases ha

theorem isBlank_of_indent {c : Char} (h : (c == ' ' || c == '\t') = true) : Text.isBlank c = true := by
  rcases Bool.or_eq_true _ _ ▸ h with h | h
  all_goals
    rw [eq_of_beq h]
    decide

/-- In front of a directive nothing but blanks is dropped. -/
theorem Expansion.before_drops (e : Expansion) (m : Mark) :
    ∃ b u, e.pending = b ++ u ∧ Blanks b ∧ e.before m = u.reverse := by
  have hall : ∃ b u, e.pending = b ++ u ∧ Blanks b ∧ e.pending.reverse = u.reverse :=
    ⟨[], e.pending, rfl, fun _ h => absurd h List.not_mem_nil, rfl⟩
  cases m with
  | plus => exact hall
  | minus =>
    obtain ⟨b, hb, hs⟩ := dropWhile_split (rfl : e.pending.dropWhile Text.isBlank = _)
    exact ⟨b, _, hs, hb, rfl⟩
  | none =>
    obtain ⟨b, hb, hs⟩ := dropWhile_split (rfl : e.pending.dropWhile (fun c => c == ' ' || c == '\t') = _)
    have hblank : Blanks b := fun c hc => isBlank_of_indent (hb c hc)
    unfold before
    cases hd : e.pending.dropWhile fun c => c == ' ' || c == '\t' with
    | nil =>
      rw [hd] at hs
      dsimp only
      split
      · exact ⟨b, [], hs, hblank, rfl⟩
      · exact hall
    | cons c r =>
      rw [hd] at hs
      dsimp only
      split
      · exact ⟨b, c :: r, hs, hblank, rfl⟩
      · exact hall

/-- After a directive nothing but blanks is dropped. -/
theorem Expansion.droppedAfter_drops (m : Mark) (s : List Char) :
    ∃ b u, s = b ++ u ∧ Blanks b ∧ droppedAfter m s = b.length := by
  have hnone : ∃ b u, s = b ++ u ∧ Blanks b ∧ 0 = b.length :=
    ⟨[], s, rfl, fun _ h => absurd h List.not_mem_nil, rfl⟩
  unfold droppedAfter
  split
  · exact ⟨_, _, List.takeWhile_append_dropWhile.symm, fun c hc => List.mem_takeWhile_imp hc, rfl⟩
  · exact hnone
  · exact ⟨['\r', '\n'], _, rfl, List.all_iff_forall_prop.1 (by decide), rfl⟩
  · exact ⟨['\n'], _, rfl, List.all_iff_forall_prop.1 (by decide), rfl⟩
  · exact hnone

theorem leadingText_chunks {ks : List Chunk} {b u : List Char} (h : leadingText (ks.flatMap Chunk.pieces) = b ++ u) :
    ∃ ks', ks = chars b ++ ks' := by
  induction b generalizing ks with
  | nil => exact ⟨ks, rfl⟩
  | cons c b ih =>
    cases ks with
    | nil => cases h
    | cons k ks =>
      cases k with
      | char a =>
        change a :: leadingText (ks.flatMap Chunk.pieces) = c :: (b ++ u) at h
        obtain ⟨rfl, hs⟩ := List.cons.inj h
        obtain ⟨ks', rfl⟩ := ih hs
        exact ⟨ks', rfl⟩
      | comment text => cases h
      | raw t section_ => cases h
      | tag t => cases h

/-! ### The expansion of chunks -/

variable {p : SecurityPolicy} {registry : Option Component.Registry}

theorem expandPieces_chars (s : List Char) (ps : List Piece) (e : Expansion) :
    expandPieces p registry ((chars s).flatMap Chunk.pieces ++ ps) 0 e = expandPieces p registry ps 0 (e.copy s) := by
  induction s generalizing e with
  | nil => rfl
  | cons c s ih =>
    have hcopy : (e.copy [c]).copy s = e.copy (c :: s) := by
      simp only [Expansion.copy, lineEnds, List.count_cons, List.count_nil, List.reverse_cons, List.append_assoc,
        List.reverse_nil, List.nil_append, List.singleton_append, Nat.zero_add, Expansion.mk.injEq, true_and, and_true]
      omega
    change expandPieces p registry ((chars s).flatMap Chunk.pieces ++ ps) 0 (e.copy [c]) = _
    rw [ih, hcopy]

/-- Dropped characters leave no trace but in the place of what follows. -/
theorem expandPieces_skip (b : List Char) (ps : List Piece) (e : Expansion) :
    ∃ e', e'.pending = e.pending ∧ e'.loops = e.loops ∧
      expandPieces p registry ((chars b).flatMap Chunk.pieces ++ ps) b.length e = expandPieces p registry ps 0 e' := by
  induction b generalizing e with
  | nil => exact ⟨e, rfl, rfl, rfl⟩
  | cons c b ih =>
    obtain ⟨e', hpending, hloops, h⟩ := ih { e with line := e.line + lineEnds [c], atLineStart := c == '\n' }
    exact ⟨e', hpending, hloops, h⟩

theorem Tag.isRaw_role {t : Tag} (h : t.isRaw = true) : t.role = .other := by
  obtain ⟨hkind, hkey⟩ := (Bool.and_eq_true _ _).mp h
  unfold Tag.role
  rw [eq_of_beq hkind, eq_of_beq hkey]
  rfl

theorem Tag.role_directive {t : Tag} (h : t.role = .directive) : t.kind = .block ∧ t.keyword = "component".toList := by
  unfold Tag.role at h
  split at h
  · cases h
  · next hkind =>
    split_ifs at h with hfor hend hcomponent
    exact ⟨hkind, hcomponent⟩

/-- The replacement of a directive is written as markup or as a call. -/
theorem directive_written {t : Tag} {d : Directive} (hrole : t.role = .directive) (hfree : t.reserved? = none)
    (h : Directive.parse t.args = .ok d) :
    (∃ html, (d.replacement p registry).source = html ∧ IsMarkup html) ∨
      ∃ name props, (d.replacement p registry).source = (callTag name props).source ∧ GoodName name ∧
        ∀ q ∈ props, GoodProp q.1 q.2 := by
  obtain ⟨-, hkey⟩ := t.role_directive hrole
  have hargs := t.args_unreserved hfree (by rw [hkey]; decide)
  obtain ⟨hname, hprops⟩ := parse_good h hargs
  rcases @replacement_good p registry d hprops with ⟨html, heq, hhtml⟩ | ⟨props, heq, hgood⟩
  · exact .inl ⟨html.toList, by rw [heq]; rfl, hhtml⟩
  · exact .inr ⟨d.name, props, by rw [heq, callTag_source], hname, hgood⟩

theorem result_of_bind {ε α β : Type} {a : Except ε α} {f : α → Except ε β} {y : β} (h : (a >>= f) = .ok y) :
    ∃ x, a = .ok x ∧ f x = .ok y := by
  cases a with
  | error e => cases h
  | ok x => exact ⟨x, rfl, h⟩

/-- Chunks that wait to be written may still lose their blanks. -/
def Held (near : List Chunk) : Prop :=
  ∀ k ∈ near, k.IsSolid ∧ k.IsCopied

theorem Held.cons {k : Chunk} {near : List Chunk} (h : Held near) (hsolid : k.IsSolid) (hcopied : k.IsCopied) :
    Held (k :: near) := by
  intro a ha
  rcases List.mem_cons.1 ha with rfl | ha
  · exact ⟨hsolid, hcopied⟩
  · exact h a ha

theorem Held.copied {near : List Chunk} (h : Held near) : ∀ k ∈ near.reverse, k.IsCopied :=
  fun k hk => (h k (List.mem_reverse.1 hk)).2

theorem Held.nil : Held [] :=
  fun _ h => absurd h List.not_mem_nil

theorem Expanded.directive {t : Tag} {d : Directive} {b b' : List Char} {ks kx : List Chunk}
    (hrole : t.role = .directive) (hfree : t.reserved? = none) (h : Directive.parse t.args = .ok d)
    (hb : Blanks b) (hb' : Blanks b') (hks : Expanded ks kx) :
    ∃ ky, (d.replacement p registry).source ++ cutSource kx = cutSource ky ∧
      Expanded (chars b ++ .tag t :: (chars b' ++ ks)) ky := by
  rcases @directive_written p registry t d hrole hfree h with
    ⟨html, hsource, hhtml⟩ | ⟨name, props, hsource, hname, hprops⟩
  · refine ⟨chars html ++ kx, ?_, .block hrole hb hb' hhtml hks⟩
    rw [hsource, cutSource_append, cutSource_chars]
  · refine ⟨.tag (callTag name props) :: kx, ?_, .call hrole hb hb' hname hprops hks⟩
    rw [hsource, cutSource_cons, Chunk.source_tag]

theorem expandPieces_expanded {ks near : List Chunk} {e : Expansion} {x : List Char}
    (hsafe : ∀ k ∈ ks, k.IsSafe) (hheld : Held near) (he : e.pending = heldText near)
    (h : expandPieces p registry (ks.flatMap Chunk.pieces) 0 e = .ok x) :
    ∃ kx, x = cutSource kx ∧ Expanded (near.reverse ++ ks) kx := by
  induction hn : ks.length using Nat.strongRecOn generalizing ks near e x with
  | ind n ih =>
    have hpending : e.pending.reverse = cutSource near.reverse := by rw [he, heldText_reverse]
    cases ks with
    | nil =>
      cases h
      exact ⟨near.reverse ++ [], by rw [hpending, List.append_nil], Expanded.copies hheld.copied .nil⟩
    | cons k ks =>
      have hk := hsafe k List.mem_cons_self
      have hrest : ∀ a ∈ ks, a.IsSafe := fun a ha => hsafe a (List.mem_cons_of_mem _ ha)
      have hlt : ks.length < n := by
        rw [← hn]
        exact Nat.lt_succ_self _
      -- A chunk that is copied waits with those before it.
      have hcopy : ∀ {e' : Expansion}, k.IsSolid → k.IsCopied → e'.pending = k.source.reverse ++ e.pending →
          expandPieces p registry (ks.flatMap Chunk.pieces) 0 e' = .ok x →
          ∃ kx, x = cutSource kx ∧ Expanded (near.reverse ++ k :: ks) kx := by
        intro e' hsolid hcopied he' h
        have he' : e'.pending = heldText (k :: near) := by rw [he', he, heldText_cons]
        obtain ⟨kx, hx, hkx⟩ := ih _ hlt hrest (hheld.cons hsolid hcopied) he' h rfl
        rw [List.reverse_cons, List.append_assoc] at hkx
        exact ⟨kx, hx, hkx⟩
      cases k with
      | char c => exact @hcopy (e.copy [c]) (.inl ⟨c, rfl⟩) trivial rfl h
      | comment text =>
        have hsolid : EndsSolid (Chunk.comment text).source :=
          ⟨'\x7b' :: '#' :: (text ++ ['#']), '\x7d', by simp [Chunk.source_comment], by decide⟩
        refine hcopy (.inr hsolid) trivial ?_ h
        rw [Chunk.source_comment]
        rfl
      | raw t section_ =>
        obtain ⟨hraw, hend⟩ := hk.raw t section_ rfl
        have hsolid : EndsSolid (Chunk.raw t section_).source := by
          rw [Chunk.source_raw]
          exact hend.endsSolid.append _
        have h : expandPieces p registry (ks.flatMap Chunk.pieces) 0 ((e.copy t.source).copy section_) = .ok x := by
          change expandPieces p registry (.tag t :: .hidden section_ :: ks.flatMap Chunk.pieces) 0 e = .ok x at h
          rw [expandPieces, Tag.isRaw_role hraw] at h
          exact h
        refine hcopy (.inr hsolid) trivial ?_ h
        simp [Expansion.copy, Chunk.source_raw]
      | tag t =>
        have hsolid : (Chunk.tag t).IsSolid := .inr (by rw [Chunk.source_tag]; exact t.endsSolid)
        change expandPieces p registry (.tag t :: ks.flatMap Chunk.pieces) 0 e = .ok x at h
        rw [expandPieces] at h
        cases hrole : t.role with
        | other =>
          rw [hrole] at h
          refine hcopy hsolid (.inl hrole) ?_ h
          rw [Chunk.source_tag]
          rfl
        | endLoop =>
          rw [hrole] at h
          refine hcopy hsolid (.inr hrole) ?_ h
          rw [Chunk.source_tag]
          rfl
        | loop =>
          rw [hrole] at h
          dsimp only at h
          split at h
          · cases h
          · obtain ⟨after, hafter, hx⟩ := result_of_bind h
            cases hx
            obtain ⟨kx, rfl, hkx⟩ := ih _ hlt hrest .nil rfl hafter rfl
            refine ⟨near.reverse ++ .tag t :: .tag (tickTag t.trail) :: kx, ?_,
              Expanded.copies hheld.copied (.loop hrole hkx)⟩
            rw [hpending, ← tickTag_source]
            simp [Chunk.source_tag]
        | directive =>
          rw [hrole] at h
          dsimp only at h
          split at h
          · cases h
          · next d hparse =>
            obtain ⟨after, hafter, hx⟩ := result_of_bind h
            cases hx
            obtain ⟨b', u', hlead, hb', hskip⟩ :=
              Expansion.droppedAfter_drops t.trail (leadingText (ks.flatMap Chunk.pieces))
            obtain ⟨ks', rfl⟩ := leadingText_chunks hlead
            rw [hskip, List.flatMap_append] at hafter
            obtain ⟨e', hempty, -, hskipped⟩ :=
              @expandPieces_skip p registry b' (ks'.flatMap Chunk.pieces) (e.afterTag t)
            rw [hskipped] at hafter
            have hlt' : ks'.length < n := by
              rw [List.length_append] at hlt
              omega
            obtain ⟨kx, rfl, hkx⟩ := ih _ hlt' (fun a ha => hrest a (List.mem_append_right _ ha)) .nil hempty hafter rfl
            obtain ⟨b, u, hpend, hb, hbefore⟩ := e.before_drops t.lead
            obtain ⟨near', rfl, rfl⟩ := split_blanks (fun k hk => (hheld k hk).1) hb (he ▸ hpend)
            have hb : Blanks b.reverse := fun c hc => hb c (List.mem_reverse.1 hc)
            obtain ⟨ky, hky, hexpanded⟩ := @Expanded.directive p registry t d b.reverse b' _ _ hrole
              (hk.unreserved t List.mem_cons_self) hparse hb hb' hkx
            have hheld' : Held near' := fun a ha => hheld a (List.mem_append_right _ ha)
            refine ⟨near'.reverse ++ ky, ?_, ?_⟩
            · rw [hbefore, hky, heldText_reverse, cutSource_append]
            · rw [List.reverse_append, ← chars_reverse, List.append_assoc]
              exact Expanded.copies hheld'.copied hexpanded

end SecureLayout.Template
