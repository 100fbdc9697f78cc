import SecureLayout.Proofs.Template.Agreement
import SecureLayout.Template.Environment

/-!
Sources that the scanner and the lexer read alike. Main statement: where both find the same tags, the expansion
of a source puts a tick at the beginning of every loop body, whatever either takes for comments and raw sections.
-/

namespace SecureLayout.Template

open Text (byteLength)

variable {o : Nat} {ks ls : List Chunk} {ts : List Token} {tags : List SeenTag} {k : Chunk} {t : Tag}

/-! ### Chunks without hidden stretches -/

/-- Characters and tags; what is hidden is plain text. -/
def Chunk.flat : Chunk → List Chunk
  | .comment text => chars (Chunk.comment text).source
  | .raw t section_ => .tag t :: chars section_
  | k => [k]

def flatten (ks : List Chunk) : List Chunk :=
  ks.flatMap Chunk.flat

@[simp] theorem flatten_cons (k : Chunk) (ks : List Chunk) : flatten (k :: ks) = k.flat ++ flatten ks := rfl

theorem cutSource_flatten (ks : List Chunk) : cutSource (flatten ks) = cutSource ks := by
  induction ks with
  | nil => rfl
  | cons k ks ih =>
    rw [flatten_cons, cutSource_append, ih, cutSource_cons]
    cases k with
    | char c => rfl
    | comment text => simp only [Chunk.flat, cutSource_chars]
    | raw t section_ => simp only [Chunk.flat, cutSource_cons, cutSource_chars, Chunk.source_tag, Chunk.source_raw]
    | tag t => simp only [Chunk.flat, cutSource_cons, cutSource_nil, List.append_nil]

/-- The tags among chunks, hidden or not. -/
theorem mem_flatten_pieces : .tag t ∈ (flatten ks).flatMap Chunk.pieces ↔ .tag t ∈ ks.flatMap Chunk.pieces := by
  have hchars : ∀ s, Piece.tag t ∉ (chars s).flatMap Chunk.pieces := by
    intro s h
    obtain ⟨k, hk, ht⟩ := List.mem_flatMap.1 h
    obtain ⟨c, -, rfl⟩ := List.mem_map.1 hk
    cases List.mem_singleton.1 ht
  induction ks with
  | nil => rfl
  | cons k ks ih =>
    rw [flatten_cons, List.flatMap_append, List.mem_append, List.flatMap_cons, List.mem_append]
    refine or_congr ?_ ih
    cases k with
    | char c => rfl
    | comment text => simp [Chunk.flat, Chunk.pieces, hchars]
    | raw t section_ => simp [Chunk.flat, Chunk.pieces, hchars]
    | tag t => simp [Chunk.flat]

/-! ### Places of tags -/

/-- Where the tags among chunks begin, behind some octets. -/
def tagStarts (o : Nat) : List Chunk → List Nat
  | [] => []
  | .tag t :: ks => o :: tagStarts (o + byteLength t.source) ks
  | .raw t section_ :: ks => o :: tagStarts (o + byteLength (Chunk.raw t section_).source) ks
  | k :: ks => tagStarts (o + byteLength k.source) ks

theorem tagStarts_chars (s : List Char) (ks : List Chunk) :
    tagStarts o (chars s ++ ks) = tagStarts (o + byteLength s) ks := by
  induction s generalizing o with
  | nil => rfl
  | cons c s ih =>
    change tagStarts (o + byteLength [c]) (chars s ++ ks) = _
    rw [ih, Nat.add_assoc, ← byteLength_append]
    rfl

theorem tagStarts_flatten (ks : List Chunk) : tagStarts o (flatten ks) = tagStarts o ks := by
  induction ks generalizing o with
  | nil => rfl
  | cons k ks ih =>
    cases k with
    | char c => exact ih
    | comment text =>
      rw [flatten_cons, Chunk.flat, tagStarts_chars]
      exact ih
    | raw t section_ =>
      change o :: tagStarts (o + byteLength t.source) (chars section_ ++ flatten ks) = _
      rw [tagStarts_chars, ih, tagStarts, Chunk.source_raw, byteLength_append, Nat.add_assoc]
    | tag t => exact congrArg (o :: ·) ih

theorem tagPlaces_starts (ks : List Chunk) :
    (tagPlaces o (ks.flatMap Chunk.pieces)).map TagPlace.start = tagStarts o ks := by
  induction ks generalizing o with
  | nil => rfl
  | cons k ks ih =>
    cases k with
    | char c => exact ih
    | comment text =>
      change _ = tagStarts (o + byteLength (Chunk.comment text).source) ks
      rw [Chunk.source_comment, ← ih]
      rfl
    | raw t section_ =>
      rw [tagStarts, Chunk.source_raw, byteLength_append, ← Nat.add_assoc, ← ih]
      rfl
    | tag t => exact congrArg _ ih

theorem stop_of_mem_tagPlaces {ps : List Piece} {place : TagPlace} (h : place ∈ tagPlaces o ps) : place.stop ≠ none := by
  induction ps generalizing o with
  | nil => cases h
  | cons q ps ih =>
    cases q with
    | char c => exact ih h
    | hidden cs => exact ih h
    | tag t =>
      rcases List.mem_cons.1 h with rfl | h
      · exact Option.some_ne_none _
      · exact ih h

theorem Spelled.starts (h : Spelled o ks ts tags) : tags.map SeenTag.start = tagStarts o ks := by
  induction h with
  | nil => rfl
  | char _ ih => exact ih
  | data text _ ih => exact ih
  | comment _ ih => exact ih
  | raw text _ ih => exact congrArg _ ih
  | tag hw _ ih =>
    rw [Chunk.source_tag] at ih
    exact congrArg _ ih

theorem le_of_mem_tagStarts {n : Nat} (h : n ∈ tagStarts o ks) : o ≤ n := by
  induction ks generalizing o with
  | nil => cases h
  | cons k ks ih =>
    cases k with
    | char c => exact (Nat.le_add_right _ _).trans (ih h)
    | comment text => exact (Nat.le_add_right _ _).trans (ih h)
    | raw t section_ =>
      rcases List.mem_cons.1 h with rfl | h
      · exact Nat.le_refl _
      · exact (Nat.le_add_right _ _).trans (ih h)
    | tag t =>
      rcases List.mem_cons.1 h with rfl | h
      · exact Nat.le_refl _
      · exact (Nat.le_add_right _ _).trans (ih h)

/-- A character, or a tag that the scanner reads. -/
def Chunk.IsPlain : Chunk → Prop
  | .char _ => True
  | .tag t => t.IsScanned
  | _ => False

/-- Characters and tags are told from the source and from where the tags begin. -/
theorem plain_unique (hks : ∀ k ∈ ks, k.IsPlain) (hls : ∀ l ∈ ls, l.IsPlain) (hs : cutSource ks = cutSource ls)
    (hstarts : tagStarts o ks = tagStarts o ls) : ks = ls := by
  have hpos : ∀ c : Char, 0 < byteLength [c] := by
    intro c
    unfold byteLength
    rw [List.foldl_cons, List.foldl_nil, Nat.zero_add]
    exact c.utf8Size_pos
  induction ks generalizing ls o with
  | nil => exact (cutSource_eq_nil hs.symm).symm
  | cons k ks ih =>
    cases ls with
    | nil => exact cutSource_eq_nil hs
    | cons l ls =>
      obtain ⟨hk, hks'⟩ := List.forall_mem_cons.1 hks
      obtain ⟨hl, hls'⟩ := List.forall_mem_cons.1 hls
      rw [cutSource_cons, cutSource_cons] at hs
      have hapart : ∀ {c : Char} {ks : List Chunk} {r : List Nat}, tagStarts (o + byteLength [c]) ks ≠ o :: r := by
        intro c ks r heq
        have hle := le_of_mem_tagStarts (heq ▸ List.mem_cons_self : o ∈ tagStarts (o + byteLength [c]) ks)
        have := hpos c
        omega
      cases k with
      | char c =>
        cases l with
        | char a =>
          obtain ⟨rfl, htail⟩ := List.cons.inj hs
          rw [ih hks' hls' htail hstarts]
        | tag t => exact absurd hstarts hapart
        | _ => exact hl.elim
      | tag t =>
        cases l with
        | char a => exact absurd hstarts.symm hapart
        | tag t' =>
          rw [Chunk.source_tag, Chunk.source_tag] at hs
          obtain ⟨rfl, htail⟩ := hk.unique hl hs
          rw [ih hks' hls' htail (List.cons.inj hstarts).2]
        | _ => exact hl.elim
      | _ => exact hk.elim

/-! ### The expansion of flat chunks -/

/-- Every raw section stands behind a tag that the scanner takes for a raw tag. -/
def RawTagged (ks : List Chunk) : Prop :=
  ∀ t section_, .raw t section_ ∈ ks → t.isRaw = true

theorem piece_chunks {line : Nat} {c : Char} {s rest : List Char} {ps : List Piece}
    (h : piece line c s = .ok (ps, rest)) :
    ∃ k : Chunk, ps = k.pieces ∧ RawTagged [k] ∧ ∀ t, .tag t ∈ k.pieces → t.IsScanned := by
  have hchar : ∀ c, RawTagged [.char c] ∧ ∀ t, .tag t ∈ (Chunk.char c).pieces → t.IsScanned := by
    intro c
    constructor
    · intro t section_ hmem
      cases List.mem_singleton.1 hmem
    · intro t hmem
      cases List.mem_singleton.1 hmem
  unfold piece at h
  split at h
  · split at h
    · next comment _ _ =>
      cases h
      refine ⟨.comment comment, rfl, ?_, ?_⟩
      · intro t section_ hmem
        cases List.mem_singleton.1 hmem
      · intro t hmem
        cases List.mem_singleton.1 hmem
    · cases h
  · split at h
    · cases h
      exact ⟨_, rfl, hchar _⟩
    · split at h
      · cases h
      · next t _ htag =>
        have hscanned := (tag?_isScanned htag).1
        split at h
        · cases h
        · split at h
          · next hraw =>
            split at h
            · next section_ _ _ =>
              cases h
              refine ⟨.raw t section_, rfl, ?_, ?_⟩
              · intro t' section' hmem
                cases List.mem_singleton.1 hmem
                simpa [Tag.isRaw] using hraw
              · intro t' hmem
                rcases List.mem_cons.1 hmem with heq | hmem
                · cases heq
                  exact hscanned
                · cases List.mem_singleton.1 hmem
            · cases h
          · cases h
            refine ⟨.tag t, rfl, ?_, ?_⟩
            · intro t' section' hmem
              cases List.mem_singleton.1 hmem
            · intro t' hmem
              cases List.mem_singleton.1 hmem
              exact hscanned
  · cases h
    exact ⟨_, rfl, hchar _⟩

/-- What the scanner returns is made of chunks, wherever it ends raw sections. -/
theorem scanFrom_chunks {line : Nat} {s : List Char} {ps : List Piece} (h : scanFrom line s = .ok ps) :
    ∃ ks, ps = ks.flatMap Chunk.pieces ∧ RawTagged ks ∧ ∀ t, .tag t ∈ ps → t.IsScanned := by
  fun_induction scanFrom line s generalizing ps with
  | case1 =>
    cases h
    exact ⟨[], rfl, fun _ _ hmem => absurd hmem List.not_mem_nil, fun _ hmem => absurd hmem List.not_mem_nil⟩
  | case2 => cases h
  | case3 => cases h
  | case4 line c s qs rest hpiece _ more hmore ih =>
    cases h
    obtain ⟨k, rfl, hraw, hscanned⟩ := piece_chunks hpiece
    obtain ⟨ks, rfl, hraws, hall⟩ := ih hmore
    refine ⟨k :: ks, rfl, ?_, ?_⟩
    · intro t section_ hmem
      rcases List.mem_cons.1 hmem with rfl | hmem
      · exact hraw t section_ List.mem_cons_self
      · exact hraws t section_ hmem
    · intro t hmem
      rcases List.mem_append.1 hmem with hmem | hmem
      · exact hscanned t hmem
      · exact hall t hmem

theorem takeWhile_append_neg {q : Char → Bool} {c : Char} (hc : q c = false) (s w : List Char) :
    (s ++ c :: w).takeWhile q = s.takeWhile q := by
  induction s with
  | nil => rw [List.nil_append, List.takeWhile_cons_of_neg (by simp [hc]), List.takeWhile_nil]
  | cons a s ih =>
    rw [List.cons_append, List.takeWhile_cons, List.takeWhile_cons, ih]

theorem droppedAfter_zero {s : List Char} (hline : ∀ r, s ≠ '\n' :: r) (hreturn : ∀ r, s ≠ '\r' :: '\n' :: r) :
    Expansion.droppedAfter .none s = 0 := by
  unfold Expansion.droppedAfter
  split
  · next h => cases h
  · rfl
  · next r _ => exact absurd rfl (hreturn r)
  · next r _ => exact absurd rfl (hline r)
  · rfl

/-- What follows a directive is dropped alike, whether a stretch that opens with a brace is hidden or not. -/
theorem droppedAfter_brace (m : Mark) (s w : List Char) (hw : w.head? = some '\x7b' ∨ w = []) :
    Expansion.droppedAfter m (s ++ w) = Expansion.droppedAfter m s := by
  rcases hw with hw | rfl
  · obtain ⟨w, rfl⟩ := List.head?_eq_some_iff.1 hw
    cases m with
    | plus => rfl
    | minus => exact congrArg List.length (takeWhile_append_neg (by decide) s w)
    | none =>
      by_cases hline : ∃ r, s = '\n' :: r
      · obtain ⟨r, rfl⟩ := hline
        rfl
      · by_cases hreturn : ∃ r, s = '\r' :: '\n' :: r
        · obtain ⟨r, rfl⟩ := hreturn
          rfl
        · rw [droppedAfter_zero (fun r h => hline ⟨r, h⟩) fun r h => hreturn ⟨r, h⟩]
          apply droppedAfter_zero
          · intro r h
            cases s with
            | nil => cases h
            | cons a s =>
              cases h
              exact hline ⟨s, rfl⟩
          · intro r h
            cases s with
            | nil => cases h
            | cons a s =>
              cases s with
              | nil => cases h
              | cons d s =>
                cases h
                exact hreturn ⟨s, rfl⟩
  · rw [List.append_nil]

theorem leadingText_flatten (ks : List Chunk) : ∃ w, (w.head? = some '\x7b' ∨ w = []) ∧
    leadingText ((flatten ks).flatMap Chunk.pieces) = leadingText (ks.flatMap Chunk.pieces) ++ w := by
  induction ks with
  | nil => exact ⟨[], .inr rfl, rfl⟩
  | cons k ks ih =>
    cases k with
    | char c =>
      obtain ⟨w, hw, h⟩ := ih
      exact ⟨w, hw, congrArg (c :: ·) h⟩
    | comment text =>
      refine ⟨leadingText ((flatten (.comment text :: ks)).flatMap Chunk.pieces), .inl ?_, rfl⟩
      rw [flatten_cons, Chunk.flat, Chunk.source_comment]
      rfl
    | raw t section_ => exact ⟨[], .inr rfl, rfl⟩
    | tag t => exact ⟨[], .inr rfl, rfl⟩

variable {p : SecurityPolicy} {registry : Option Component.Registry}

theorem droppedAfter_le (m : Mark) (s : List Char) : Expansion.droppedAfter m s ≤ s.length := by
  obtain ⟨b, u, hs, -, hlen⟩ := Expansion.droppedAfter_drops m s
  rw [hlen, hs, List.length_append]
  exact Nat.le_add_right _ _

/-- The expansion makes no difference between what is hidden and plain text. -/
theorem expandPieces_flatten (hraw : RawTagged ks) {skip : Nat}
    (hskip : skip ≤ (leadingText (ks.flatMap Chunk.pieces)).length) (e : Expansion) :
    expandPieces p registry ((flatten ks).flatMap Chunk.pieces) skip e =
      expandPieces p registry (ks.flatMap Chunk.pieces) skip e := by
  induction ks generalizing skip e with
  | nil => rfl
  | cons k ks ih =>
    have ih := @ih fun t section_ hmem => hraw t section_ (List.mem_cons_of_mem _ hmem)
    cases k with
    | char c =>
      cases skip with
      | zero => exact ih (Nat.zero_le _) (e.copy [c])
      | succ skip => exact ih (Nat.le_of_succ_le_succ hskip) _
    | comment text =>
      cases skip with
      | zero =>
        rw [flatten_cons, List.flatMap_append, Chunk.flat, expandPieces_chars, ih (Nat.zero_le _), Chunk.source_comment]
        rfl
      | succ skip => cases hskip
    | raw t section_ =>
      have hrole := Tag.isRaw_role (hraw t section_ List.mem_cons_self)
      change expandPieces p registry (.tag t :: (chars section_ ++ flatten ks).flatMap Chunk.pieces) skip e =
        expandPieces p registry (.tag t :: .hidden section_ :: ks.flatMap Chunk.pieces) skip e
      rw [expandPieces, expandPieces, hrole]
      dsimp only
      rw [List.flatMap_append, expandPieces_chars, ih (Nat.zero_le _)]
      rfl
    | tag t =>
      obtain ⟨w, hw, hlead⟩ := leadingText_flatten ks
      have hdropped := droppedAfter_brace t.trail (leadingText (ks.flatMap Chunk.pieces)) w hw
      change expandPieces p registry (.tag t :: (flatten ks).flatMap Chunk.pieces) skip e =
        expandPieces p registry (.tag t :: ks.flatMap Chunk.pieces) skip e
      rw [expandPieces, expandPieces]
      simp only [hlead, hdropped, ih (Nat.zero_le _), ih (droppedAfter_le _ _)]

/-! ### The chunks that the lexer reads -/

/-- A section that the lexer ends has a plain end. -/
theorem rawEnd?_plainEnd {s text rest : List Char} {lead trail : Mark}
    (h : Lexer.rawEnd? s = some (text, lead, trail, rest)) : ∃ section_, s = section_ ++ rest ∧ PlainEnd section_ := by
  fun_induction Lexer.rawEnd? s generalizing text lead trail rest with
  | case1 => cases h
  | case2 s lead' inner hlead trail' rest'' hbare =>
    cases h
    obtain ⟨b, b', hb, hb', rfl⟩ := (bareTag?_iff endraw_isSolid).1 hbare
    refine ⟨rawEndTag lead' b b' trail', ?_, [], lead', b, b', trail', hb, hb', rfl⟩
    rw [(leadMark_eq hlead).1]
    simp [rawEndTag]
  | case3 s lead' inner hlead hbare text' lead'' trail' rest'' hend ih =>
    cases h
    obtain ⟨section_, rfl, text, m, b, b', m', hb, hb', rfl⟩ := ih hend
    exact ⟨_, rfl, '\x7b' :: '%' :: text, m, b, b', m', hb, hb', rfl⟩
  | case4 => cases h
  | case5 c s hne text' lead' trail' rest'' hend ih =>
    cases h
    obtain ⟨section_, rfl, text, m, b, b', m', hb, hb', rfl⟩ := ih hend
    exact ⟨_, rfl, c :: text, m, b, b', m', hb, hb', rfl⟩
  | case6 => cases h

theorem Chunk.IsLocal.raw (h : k.IsLocal) : ∀ t section_, k = .raw t section_ → t.isRaw = true ∧ PlainEnd section_ := by
  rintro t section_ rfl
  refine ⟨h.2.1.isRaw h.1, ?_⟩
  obtain ⟨text, lead, trail, hend⟩ := h.2.2 []
  obtain ⟨v, hv, hplain⟩ := rawEnd?_plainEnd hend
  rw [List.append_nil, List.append_nil] at hv
  exact hv ▸ hplain

theorem Chunk.IsLocal.isScanned (h : k.IsLocal) : ∀ t, .tag t ∈ k.pieces → t.IsScanned := by
  intro t hmem
  cases k with
  | char c => cases List.mem_singleton.1 hmem
  | comment text => cases List.mem_singleton.1 hmem
  | raw t' section_ =>
    rcases List.mem_cons.1 hmem with heq | hmem
    · cases heq
      exact h.1
    · cases List.mem_singleton.1 hmem
  | tag t' =>
    cases List.mem_singleton.1 hmem
    exact h.1

theorem Chunk.IsLocal.isSolid (h : k.IsLocal) : k.IsSolid := by
  cases k with
  | char c => exact .inl ⟨c, rfl⟩
  | comment text =>
    refine .inr ⟨'\x7b' :: '#' :: (text ++ ['#']), '\x7d', ?_, by decide⟩
    rw [Chunk.source_comment]
    simp
  | raw t section_ =>
    refine .inr ?_
    rw [Chunk.source_raw]
    exact (h.raw t section_ rfl).2.endsSolid.append _
  | tag t =>
    refine .inr ?_
    rw [Chunk.source_tag]
    exact t.endsSolid

/-- Blanks behind a text do not help the lexer on. -/
theorem Stuck.append_blanks {s b : List Char} (h : Stuck s) (hb : Blanks b) : Stuck (s ++ b) := by
  refine ⟨opensTag_append b h.1, ?_⟩
  intro k rest hk hsource
  rcases hk.isSolid with hchar | ⟨v, c, hv, hc⟩
  · exact .inl hchar
  · rcases List.append_eq_append_iff.1 hsource with ⟨w, hw, hrest⟩ | ⟨w, hw, -⟩
    · rcases List.eq_nil_or_concat w with rfl | ⟨w, a, rfl⟩
      · exact h.2 k [] hk (by rw [hw, List.append_nil, List.append_nil])
      · -- The last character of the chunk would be one of the blanks.
        exfalso
        rw [hv, List.concat_eq_append, ← List.append_assoc] at hw
        obtain ⟨-, heq⟩ := List.append_inj' hw rfl
        cases heq
        rw [hb c (by rw [hrest]; simp)] at hc
        cases hc
    · exact h.2 k w hk hw

theorem Cut.cutUntil {r b : List Char} (h : Cut ks r) (hb : Blanks b) (hr : CutUntil Halting (chars r ++ chars b)) :
    CutUntil Halting (ks ++ (chars r ++ chars b)) := by
  induction h with
  | nil => exact hr
  | @cons k ks r hk hc h ih =>
    refine .cons hk ?_ (ih hr)
    intro c hkc
    cases hopens : opensTag (c :: cutSource (ks ++ (chars r ++ chars b))) with
    | false => rfl
    | true =>
      rw [cutSource_append, cutSource_append, cutSource_chars, cutSource_chars, ← List.append_assoc,
        ← List.cons_append] at hopens
      exact absurd ((opensTag_of_append hb hopens).symm.trans (hc c hkc)) Bool.noConfusion

/-- A source in whose tags the lexer does not break off is cut as the lexer reads it, up to a comment or a raw
section that does not end. -/
theorem lexed_chunks (space : BlockSpace) (source : List Char)
    (hstop : ∀ seen ∈ (tokenize space source).tags, seen.stop ≠ none) :
    ∃ ks ts, source = cutSource ks ∧ (∀ k ∈ ks, k.IsLocal) ∧ CutUntil Halting ks ∧
      Spelled 0 ks ts (tokenize space source).tags := by
  obtain ⟨ls, ts, tags, r, more, open_, hcut, hs, hspelled, -, htags, hhalts⟩ := tokenize_outcome space source
  rw [List.reverse_nil, List.nil_append] at htags
  obtain ⟨b, hb, hblank⟩ := withoutLastLineEnd_reverse source
  have hsource : source = withoutLastLineEnd source ++ b.reverse := by
    have hreverse := congrArg List.reverse hb
    rw [List.reverse_reverse, List.reverse_append, List.reverse_reverse] at hreverse
    exact hreverse
  have hblank : Blanks b.reverse := fun c hc => hblank c (List.mem_reverse.1 hc)
  have hchars : ∀ {s : List Char} {k : Chunk}, k ∈ chars s → k.IsLocal := by
    intro s k hk
    obtain ⟨c, -, rfl⟩ := List.mem_map.1 hk
    trivial
  have hend : open_ = [] ∧ CutUntil Halting (chars r ++ chars b.reverse) := by
    generalize (tokenize space source).fault = fault at hhalts
    cases hhalts with
    | done =>
      refine ⟨rfl, ?_⟩
      have hfree : '\x7b' ∉ b.reverse := fun hmem => absurd (hblank _ hmem) (by decide)
      have hcut : CutUntil Halting (chars b.reverse ++ []) := .markup hfree .nil
      rw [List.append_nil] at hcut
      exact hcut
    | stuck hstuck _ _ hopen =>
      constructor
      · rw [List.eq_nil_iff_forall_not_mem]
        intro seen hseen
        exact hstop seen (by rw [htags]; exact List.mem_append_right _ hseen) (hopen seen hseen)
      · rw [← chars_append]
        exact .stop (.inr ⟨_, rfl, hstuck.append_blanks hblank⟩)
  obtain ⟨rfl, hend⟩ := hend
  rw [List.append_nil] at htags
  refine ⟨ls ++ (chars r ++ chars b.reverse), ts, ?_, ?_, hcut.cutUntil hblank hend, ?_⟩
  · rw [cutSource_append, cutSource_append, cutSource_chars, cutSource_chars, ← List.append_assoc, ← hs]
    exact hsource
  · intro k hk
    rcases List.mem_append.1 hk with hk | hk
    · exact hcut.isLocal k hk
    · rcases List.mem_append.1 hk with hk | hk
      · exact hchars hk
      · exact hchars hk
  · rw [htags, ← chars_append]
    exact hspelled.append_chars _

/-! ### Sources that are read alike -/

theorem isPlain_flatten (h : ∀ t, .tag t ∈ ks.flatMap Chunk.pieces → t.IsScanned) : ∀ k ∈ flatten ks, k.IsPlain := by
  have hchars : ∀ {s : List Char} {k : Chunk}, k ∈ chars s → k.IsPlain := by
    intro s k hk
    obtain ⟨c, -, rfl⟩ := List.mem_map.1 hk
    trivial
  intro a ha
  obtain ⟨k, hk, ha⟩ := List.mem_flatMap.1 ha
  have htags : ∀ t, .tag t ∈ k.pieces → t.IsScanned := fun t ht => h t (List.mem_flatMap.2 ⟨k, hk, ht⟩)
  cases k with
  | char c =>
    rw [List.mem_singleton.1 ha]
    trivial
  | comment text => exact hchars ha
  | raw t section_ =>
    rcases List.mem_cons.1 ha with rfl | ha
    · exact htags t List.mem_cons_self
    · exact hchars ha
  | tag t =>
    rw [List.mem_singleton.1 ha]
    exact htags t List.mem_cons_self

variable {space : BlockSpace} {name : String} {source x : List Char} {ps : List Piece} {b : List Stmt}

/-- Where the scanner and the lexer find tags at the same places, their chunks differ in what is hidden alone. -/
theorem flatten_eq {cs : List Chunk} (hcs : ∀ t, .tag t ∈ cs.flatMap Chunk.pieces → t.IsScanned)
    (hks : ∀ k ∈ ks, k.IsLocal) (hs : cutSource cs = cutSource ks) (hspelled : Spelled 0 ks ts tags)
    (hplaces : tagPlaces 0 (cs.flatMap Chunk.pieces) = tags.map SeenTag.place) : flatten cs = flatten ks := by
  have hscanned : ∀ t, .tag t ∈ ks.flatMap Chunk.pieces → t.IsScanned := by
    intro t ht
    obtain ⟨k, hk, ht⟩ := List.mem_flatMap.1 ht
    exact (hks k hk).isScanned t ht
  have hstarts := congrArg (List.map TagPlace.start) hplaces
  rw [tagPlaces_starts, List.map_map] at hstarts
  apply plain_unique (isPlain_flatten hcs) (isPlain_flatten hscanned) (o := 0)
  · rw [cutSource_flatten, cutSource_flatten, hs]
  · rw [tagStarts_flatten, tagStarts_flatten, hstarts, ← hspelled.starts]
    rfl

/-- Where the scanner finds exactly the tags of the lexer, every loop of a template counts its bodies. -/
theorem metered_of_tagPlaces (hscan : scan source = .ok ps)
    (hplaces : tagPlaces 0 ps = (tokenize space source).tags.map SeenTag.place)
    (hexpand : expand p registry source = .ok x) (hparse : parse space name x = .ok b) : ∀ a ∈ b, a.Metered := by
  have hstop : ∀ seen ∈ (tokenize space source).tags, seen.stop ≠ none := by
    intro seen hseen
    have hplace : seen.place ∈ tagPlaces 0 ps := hplaces ▸ List.mem_map_of_mem hseen
    exact stop_of_mem_tagPlaces hplace
  obtain ⟨cs, rfl, hraw, hscanned⟩ := scanFrom_chunks hscan
  obtain ⟨ks, ts, hsource, hlocal, hcut, hspelled⟩ := lexed_chunks space source hstop
  have hcs := scanFrom_source hscan
  rw [List.flatMap_assoc] at hcs
  have hflat := flatten_eq hscanned hlocal (hcs.trans hsource) hspelled hplaces
  have hsafe : ∀ k ∈ ks, k.IsSafe := by
    intro k hk
    refine ⟨(hlocal k hk).raw, ?_⟩
    intro t ht
    apply scanFrom_unreserved hscan
    rw [← mem_flatten_pieces, hflat, mem_flatten_pieces]
    exact List.mem_flatMap.2 ⟨k, hk, ht⟩
  have hpieces : expandPieces p registry (ks.flatMap Chunk.pieces) 0 {} = .ok x := by
    unfold expand at hexpand
    rw [hscan] at hexpand
    rw [← expandPieces_flatten (fun t section_ hmem => ((hsafe _ hmem).raw t section_ rfl).1) (Nat.zero_le _), ← hflat,
      expandPieces_flatten hraw (Nat.zero_le _)]
    exact hexpand
  obtain ⟨kx, rfl, hexpanded⟩ := expandPieces_expanded hsafe .nil rfl hpieces
  obtain ⟨-, ts, tags, hspelled, -, htokens, hmetered⟩ := hexpanded.lexed hcut hsafe hparse
  exact hmetered (hexpanded.woven hsafe hlocal hspelled)

/-- The scanner accepts the source, and finds exactly the tags that the lexer finds in it. Where the lexer breaks off
in a directive, which is compiled for what replaces it, raw sections that end plainly do as well. -/
def ReadAlike (source : List Char) : Prop :=
  ∃ ps, scan source = .ok ps ∧
    (tagPlaces 0 ps = (tokenize TemplateEnvironment.blockSpace source).tags.map SeenTag.place ∨ RawEndsPlain ps)

/-- Every loop of a source that is read alike counts its bodies. -/
theorem ReadAlike.metered (h : ReadAlike source) (hexpand : expand p registry source = .ok x)
    (hparse : parse TemplateEnvironment.blockSpace name x = .ok b) : ∀ a ∈ b, a.Metered := by
  obtain ⟨ps, hscan, hplaces | hplain⟩ := h
  · exact metered_of_tagPlaces hscan hplaces hexpand hparse
  · obtain ⟨-, -, -, hwoven⟩ := scan_agrees_with_lexer hscan hplain hexpand hparse
    obtain ⟨_, ts, -, -, -, htokens, -, hmetered⟩ := parse_lexed hparse
    exact hmetered (htokens ▸ hwoven)

end SecureLayout.Template
