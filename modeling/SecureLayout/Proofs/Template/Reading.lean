import SecureLayout.Proofs.Template.Cut
import SecureLayout.Proofs.Template.Shape

/-!
What a run of the lexer reads. Main statement: from any source the lexer reads a cut, the tokens of its
chunks and the tags among them, up to the end or to a place where no chunk can be read.
-/

namespace SecureLayout.Template

open Text (byteLength)

/-- The words of a tag. -/
def Tag.Words (t : Tag) (ws : List Token) : Prop :=
  ∀ rest, Coded t.kind 0 (t.inner ++ rest) ws t.trail rest

theorem Tag.Words.isWord {t : Tag} {ws : List Token} (h : t.Words ws) : ∀ w ∈ ws, w.isWord = true :=
  (h []).isWord

/-- The tokens and the tags of a cut that begins behind some octets. Text between tags may be dropped. -/
inductive Spelled : Nat → List Chunk → List Token → List SeenTag → Prop
  | nil (o : Nat) : Spelled o [] [] []
  | char {o : Nat} {c : Char} {ks : List Chunk} {ts : List Token} {tags : List SeenTag}
      (h : Spelled (o + byteLength [c]) ks ts tags) : Spelled o (.char c :: ks) ts tags
  | data {o : Nat} {c : Char} {ks : List Chunk} {ts : List Token} {tags : List SeenTag} (text : String)
      (h : Spelled (o + byteLength [c]) ks ts tags) : Spelled o (.char c :: ks) (.data text :: ts) tags
  | comment {o : Nat} {text : List Char} {ks : List Chunk} {ts : List Token} {tags : List SeenTag}
      (h : Spelled (o + byteLength (Chunk.comment text).source) ks ts tags) :
      Spelled o (.comment text :: ks) ts tags
  | raw {o : Nat} {t : Tag} {section_ : List Char} {ks : List Chunk} {ts : List Token}
      {tags : List SeenTag} (text : String)
      (h : Spelled (o + byteLength (Chunk.raw t section_).source) ks ts tags) :
      Spelled o (.raw t section_ :: ks) (.data text :: ts)
        ({ kind := .block, start := o, stop := some (o + byteLength t.source), words := [.name "raw"] } :: tags)
  | tag {o : Nat} {t : Tag} {ws : List Token} {ks : List Chunk} {ts : List Token} {tags : List SeenTag}
      (hw : t.Words ws) (h : Spelled (o + byteLength (Chunk.tag t).source) ks ts tags) :
      Spelled o (.tag t :: ks) (t.kind.startToken :: (ws ++ Lexer.endToken t.kind :: ts))
        ({ kind := t.kind, start := o, stop := some (o + byteLength t.source), words := ws } :: tags)

/-- No chunk is read here: a tag has no words, or neither a comment nor a raw section ends. -/
def Stuck (s : List Char) : Prop :=
  opensTag s = true ∧ ∀ (k : Chunk) (rest : List Char), k.IsLocal → s = k.source ++ rest →
    (∃ c, k = .char c) ∨ ∃ t, k = .tag t ∧ ¬ ∃ ws, t.Words ws

/-- Where a run of the lexer stops: what is left, its tokens, the fault, and a tag that is not complete. -/
inductive Halts : List Char → List Token → Option Error → List SeenTag → Prop
  | done : Halts [] [] none []
  | stuck {s : List Char} {ts : List Token} {fault : Option Error} {tags : List SeenTag} (hs : Stuck s)
      (hts : fault ≠ none ∨ ¬ Shaped false ts) (htags : fault ≠ none ∨ tags ≠ [])
      (hopen : ∀ t ∈ tags, t.stop = none) : Halts s ts fault tags

/-- What the lexer makes of a text that begins behind some octets. -/
def Outcome (o : Nat) (s : List Char) (older : List SeenTag) (tokens : List Token) (fault : Option Error)
    (found : List SeenTag) : Prop :=
  ∃ ks ts tags r more open_, Cut ks r ∧ s = cutSource ks ++ r ∧ Spelled o ks ts tags ∧
    tokens = ts ++ more ∧ found = older.reverse ++ (tags ++ open_) ∧ Halts r more fault open_

theorem byteLength_append (a b : List Char) : byteLength (a ++ b) = byteLength a + byteLength b := by
  have hfold : ∀ (s : List Char) (n : Nat), s.foldl (fun n c => n + c.utf8Size) n = n + byteLength s := by
    intro s
    induction s with
    | nil => exact fun n => rfl
    | cons c s ih =>
      intro n
      rw [byteLength, List.foldl_cons, List.foldl_cons, ih, ih (0 + c.utf8Size)]
      omega
  rw [byteLength, List.foldl_append, hfold]
  rfl

namespace Outcome

variable {o : Nat} {s : List Char} {older found : List SeenTag} {tokens : List Token} {fault : Option Error}

theorem char {c : Char} (hc : opensTag (c :: s) = false)
    (h : Outcome (o + byteLength [c]) s older tokens fault found) :
    Outcome o (c :: s) older tokens fault found := by
  obtain ⟨ks, ts, tags, r, more, open_, hcut, rfl, hspelled, htokens, hfound, hhalts⟩ := h
  refine ⟨.char c :: ks, ts, tags, r, more, open_, .cons trivial ?_ hcut, rfl, .char hspelled, htokens,
    hfound, hhalts⟩
  rintro a ⟨⟩
  exact hc

theorem data {c : Char} (hc : opensTag (c :: s) = false) (text : String)
    (h : Outcome (o + byteLength [c]) s older tokens fault found) :
    Outcome o (c :: s) older (.data text :: tokens) fault found := by
  obtain ⟨ks, ts, tags, r, more, open_, hcut, rfl, hspelled, rfl, hfound, hhalts⟩ := h
  refine ⟨.char c :: ks, _, tags, r, more, open_, .cons trivial ?_ hcut, rfl, .data text hspelled, rfl,
    hfound, hhalts⟩
  rintro a ⟨⟩
  exact hc

theorem of_halts (h : Halts s tokens fault found) : Outcome o s older tokens fault (older.reverse ++ found) :=
  ⟨[], [], [], s, tokens, found, .nil s, rfl, .nil o, rfl, rfl, h⟩

end Outcome

/-! ### Text between tags -/

/-- No character of a text opens a tag, with what follows it. -/
def PlainBefore (tail : List Char) : List Char → Prop
  | [] => True
  | c :: r => opensTag (c :: (r ++ tail)) = false ∧ PlainBefore tail r

theorem opensTag_eq_false {c : Char} (h : c ≠ '\x7b') (r : List Char) : opensTag (c :: r) = false := by
  unfold opensTag
  split
  · next hc =>
    cases hc
    exact absurd rfl h
  · rfl

theorem plainBefore_of_brace_free {u : List Char} (h : '\x7b' ∉ u) (tail : List Char) :
    PlainBefore tail u := by
  induction u with
  | nil => trivial
  | cons c u ih =>
    rw [List.mem_cons, not_or] at h
    exact ⟨opensTag_eq_false (Ne.symm h.1) _, ih h.2⟩

theorem nextOpener_none {s lead : List Char} (h : Lexer.nextOpener s = (lead, none)) :
    lead = s ∧ PlainBefore [] s := by
  fun_induction Lexer.nextOpener s generalizing lead with
  | case1 =>
    cases h
    exact ⟨rfl, trivial⟩
  | case2 => cases h
  | case3 c r hc lead' o hnext ih =>
    cases h
    obtain ⟨rfl, hplain⟩ := ih hnext
    refine ⟨rfl, ?_, hplain⟩
    rw [List.append_nil]
    simpa [opensTag] using hc
  | case4 c r hne lead' o hnext ih =>
    cases h
    obtain ⟨rfl, hplain⟩ := ih hnext
    refine ⟨rfl, ?_, hplain⟩
    rw [List.append_nil]
    unfold opensTag
    split
    · next a r hc =>
      cases hc
      exact absurd rfl (hne _ _ rfl)
    · rfl

theorem nextOpener_some {s lead rest : List Char} {opener : Char}
    (h : Lexer.nextOpener s = (lead, some (opener, rest))) :
    s = lead ++ '\x7b' :: opener :: rest ∧ opener ∈ ['\x7b', '%', '#'] ∧
      PlainBefore ('\x7b' :: opener :: rest) lead := by
  fun_induction Lexer.nextOpener s generalizing lead with
  | case1 => cases h
  | case2 c r hc =>
    cases h
    exact ⟨rfl, by simpa [or_assoc] using hc, trivial⟩
  | case3 c r hc lead' o hnext ih =>
    cases h
    obtain ⟨hs, hmem, hplain⟩ := ih hnext
    refine ⟨by rw [hs]; rfl, hmem, ?_, hplain⟩
    rw [← hs]
    simpa [opensTag] using hc
  | case4 c r hne lead' o hnext ih =>
    cases h
    obtain ⟨hs, hmem, hplain⟩ := ih hnext
    refine ⟨by rw [hs]; rfl, hmem, ?_, hplain⟩
    rw [← hs]
    unfold opensTag
    split
    · next a r hc =>
      cases hc
      exact absurd rfl (hne _ _ rfl)
    · rfl

namespace Outcome

variable {o : Nat} {s : List Char} {older found : List SeenTag} {tokens : List Token} {fault : Option Error}

theorem chars {u : List Char} (hu : PlainBefore s u)
    (h : Outcome (o + byteLength u) s older tokens fault found) :
    Outcome o (u ++ s) older tokens fault found := by
  induction u generalizing o with
  | nil => exact h
  | cons c u ih =>
    refine Outcome.char hu.1 (ih hu.2 ?_)
    rwa [Nat.add_assoc, ← byteLength_append]

theorem text {u : List Char} (hu : PlainBefore s u) (hne : u ≠ []) (d : String)
    (h : Outcome (o + byteLength u) s older tokens fault found) :
    Outcome o (u ++ s) older (.data d :: tokens) fault found := by
  cases u with
  | nil => exact absurd rfl hne
  | cons c u =>
    refine Outcome.data hu.1 d (Outcome.chars hu.2 ?_)
    rwa [Nat.add_assoc, ← byteLength_append]

end Outcome

/-! ### At an opening delimiter -/

/-- What the lexer makes of the inside of a tag, from some depth of brackets on. -/
def TagOutcome (kind : TagKind) (d o : Nat) (s : List Char) (cur : SeenTag) (older : List SeenTag)
    (tokens : List Token) (fault : Option Error) (found : List SeenTag) : Prop :=
  (∃ ws mark rest stop tokens', Coded kind d s ws mark rest ∧ stop + byteLength rest = o + byteLength s ∧
    Outcome stop rest ({ cur with stop := some stop, words := cur.words ++ ws } :: older) tokens' fault found ∧
    tokens = ws ++ Lexer.endToken kind :: tokens') ∨
  ((¬ ∃ ws mark rest, Coded kind d s ws mark rest) ∧ (∀ t ∈ tokens, t.isWord = true) ∧
    ∃ ws, found = older.reverse ++ [{ cur with words := ws }])

/-- A tag that the lexer reads is one for the scanner. -/
theorem Coded.tag {kind : TagKind} {s s' rest : List Char} {ws : List Token} {lead mark : Mark}
    (hlead : leadMark s = (lead, s')) (h : Coded kind 0 s' ws mark rest) :
    ∃ t : Tag, t.kind = kind ∧ t.lead = lead ∧ t.trail = mark ∧ s' = t.inner ++ rest ∧ t.IsScanned ∧
      t.Words ws := by
  obtain ⟨b, hb⟩ := h.scanned
  have htag : tag? kind s = some (⟨kind, lead, b, mark⟩, rest) := by
    unfold tag?
    rw [hlead]
    dsimp only
    rw [hb]
    rfl
  obtain ⟨hscanned, -, hs⟩ := tag?_isScanned htag
  have hs' : s' = (Tag.mk kind lead b mark).inner ++ rest := by
    rw [(leadMark_eq hlead).1] at hs
    exact List.append_cancel_left hs
  refine ⟨⟨kind, lead, b, mark⟩, rfl, rfl, rfl, hs', hscanned, ?_⟩
  obtain ⟨u, -, hu, hlocal⟩ := h.local
  rw [hs'] at hu
  rw [← List.append_cancel_right hu] at hlocal
  exact hlocal

theorem kind_of_opens (kind : TagKind) {t : Tag} {s rest : List Char}
    (h : '\x7b' :: kind.opens :: s = t.source ++ rest) : t.kind = kind ∧ s = t.lead.source ++ (t.inner ++ rest) := by
  rw [Tag.source_append] at h
  obtain ⟨hk, hs⟩ := List.cons.inj (List.cons.inj h).2
  exact ⟨(TagKind.opens_injective hk).symm, hs⟩

namespace Outcome

variable {o : Nat} {older found : List SeenTag} {tokens : List Token} {fault : Option Error}

theorem of_tag (kind : TagKind) {s s' : List Char} {lead : Mark} (hlead : leadMark s = (lead, s'))
    (hbare : kind = .block → Lexer.bareTag? "raw".toList s' = none)
    (h : TagOutcome kind 0 (o + byteLength ('\x7b' :: kind.opens :: lead.source)) s'
      { kind, start := o } older tokens fault found) :
    Outcome o ('\x7b' :: kind.opens :: s) older (kind.startToken :: tokens) fault found := by
  rcases h with ⟨ws, mark, rest, stop, tokens', hcoded, hstop, hrest, rfl⟩ | ⟨hnone, hwords, ws, rfl⟩
  · obtain ⟨t, hkind, htlead, -, hs', hscanned, hw⟩ := Coded.tag hlead hcoded
    have hlocal : (Chunk.tag t).IsLocal := by
      refine ⟨hscanned, fun hb => ?_⟩
      have hsome := hb.2 rest
      rw [← hs', hbare (hkind.symm.trans hb.1)] at hsome
      cases hsome
    have hsource : '\x7b' :: kind.opens :: s = t.source ++ rest := by
      rw [Tag.source_append, hkind, htlead, ← hs', (leadMark_eq hlead).1]
    have hlen : stop = o + byteLength t.source := by
      have hbytes : byteLength t.source = byteLength ('\x7b' :: kind.opens :: lead.source) + byteLength t.inner := by
        rw [← byteLength_append, Tag.source_eq, hkind, htlead]
        rfl
      rw [hs', byteLength_append] at hstop
      omega
    subst hlen
    obtain ⟨ks, ts, tags, r, more, open_, hcut, rfl, hspelled, rfl, rfl, hhalts⟩ := hrest
    have hspelled' := Spelled.tag hw (by rw [Chunk.source_tag]; exact hspelled)
    refine ⟨.tag t :: ks, _, _, r, more, open_, .cons hlocal nofun hcut, ?_, hspelled', ?_, ?_, hhalts⟩
    · rw [hsource, cutSource_cons, Chunk.source_tag, List.append_assoc]
    · rw [hkind]
      simp
    · rw [hkind]
      simp
  · refine Outcome.of_halts (.stuck ⟨?_, ?_⟩ (.inr ?_) (.inr (by simp)) ?_)
    · cases kind <;> rfl
    · intro k rest hk hsource
      cases k with
      | char c => exact .inl ⟨c, rfl⟩
      | comment text =>
        rw [Chunk.source_comment] at hsource
        have hopens := (List.cons.inj (List.cons.inj hsource).2).1
        cases kind <;> exact absurd hopens (by decide)
      | raw t section_ =>
        rw [Chunk.source_raw, List.append_assoc] at hsource
        obtain ⟨hkind, hs⟩ := kind_of_opens _ hsource
        have hlead' := hk.1.lead (section_ ++ rest)
        rw [← hs, hlead] at hlead'
        have hs' := (Prod.mk.inj hlead').2
        have hsome := hk.2.1.2 (section_ ++ rest)
        rw [← hs', hbare (hkind.symm.trans hk.2.1.1)] at hsome
        cases hsome
      | tag t =>
        refine .inr ⟨t, rfl, fun ⟨ws, hw⟩ => hnone ?_⟩
        rw [Chunk.source_tag] at hsource
        obtain ⟨hkind, hs⟩ := kind_of_opens _ hsource
        have hlead' := hk.1.lead rest
        rw [← hs, hlead] at hlead'
        have hcoded := hw rest
        rw [hkind, ← (Prod.mk.inj hlead').2] at hcoded
        exact ⟨ws, _, _, hcoded⟩
    · exact fun hshaped => Shaped.not_words hwords hshaped.of_start
    · intro t ht
      rw [List.mem_singleton.1 ht]

theorem of_raw {s s' rest rest' text : List Char} {lead before after trail : Mark}
    (stop : Nat) (hlead : leadMark s = (lead, s')) (hbare : Lexer.bareTag? "raw".toList s' = some (before, rest))
    (hend : Lexer.rawEnd? rest = some (text, after, trail, rest'))
    (hstop : stop + byteLength rest = o + byteLength ('\x7b' :: '%' :: s)) (data : String)
    (h : Outcome (o + (byteLength ('\x7b' :: '%' :: s) - byteLength rest')) rest'
      ({ kind := .block, start := o, stop := some stop, words := [.name "raw"] } :: older)
      tokens fault found) :
    Outcome o ('\x7b' :: '%' :: s) older (.data data :: tokens) fault found := by
  obtain ⟨t, htlead, -, hs', hscanned, hb, -⟩ := bareTag?_tag hlead hbare
  obtain ⟨v, -, rfl, hlocal⟩ := rawEnd?_local hend
  have hsource : '\x7b' :: '%' :: s = t.source ++ (v ++ rest') := by
    rw [Tag.source_append, hb.1, htlead, ← hs', (leadMark_eq hlead).1]
    rfl
  have hlen : stop = o + byteLength t.source := by
    rw [hsource, byteLength_append t.source] at hstop
    omega
  subst hlen
  have hoffset : o + (byteLength ('\x7b' :: '%' :: s) - byteLength rest') =
      o + byteLength (Chunk.raw t v).source := by
    rw [hsource, Chunk.source_raw, byteLength_append, byteLength_append, byteLength_append]
    omega
  rw [hoffset] at h
  obtain ⟨ks, ts, tags, r, more, open_, hcut, rfl, hspelled, rfl, rfl, hhalts⟩ := h
  refine ⟨.raw t v :: ks, _, _, r, more, open_,
    .cons ⟨hscanned, hb, fun rest => ⟨_, _, _, hlocal rest⟩⟩ nofun hcut, ?_, .raw data hspelled, rfl, ?_, hhalts⟩
  · rw [hsource, cutSource_cons, Chunk.source_raw]
    simp
  · simp

theorem of_comment {s text rest : List Char} (hend : Text.splitAtMark ['#', '\x7d'] s = some (text, rest))
    (h : Outcome (o + (byteLength ('\x7b' :: '#' :: s) - byteLength rest)) rest older tokens fault found) :
    Outcome o ('\x7b' :: '#' :: s) older tokens fault found := by
  have hsource : '\x7b' :: '#' :: s = (Chunk.comment text).source ++ rest := by
    rw [splitAtMark_source hend, Chunk.source_comment]
    simp
  have hoffset : o + (byteLength ('\x7b' :: '#' :: s) - byteLength rest) =
      o + byteLength (Chunk.comment text).source := by
    rw [hsource, byteLength_append]
    omega
  rw [hoffset] at h
  obtain ⟨ks, ts, tags, r, more, open_, hcut, rfl, hspelled, htokens, hfound, hhalts⟩ := h
  refine ⟨.comment text :: ks, ts, tags, r, more, open_, .cons (splitAtMark_local hend) nofun hcut, ?_,
    .comment hspelled, htokens, hfound, hhalts⟩
  rw [hsource, cutSource_cons, List.append_assoc]

end Outcome

/-! ### Steps and runs -/

namespace Lexer

@[simp] theorem rest_advance (l : Lexer) (u r : List Char) : (l.advance u r).rest = r := rfl

@[simp] theorem offset_advance (l : Lexer) (u r : List Char) :
    (l.advance u r).offset = l.offset + byteLength u := rfl

@[simp] theorem seen_advance (l : Lexer) (u r : List Char) : (l.advance u r).seen = l.seen := rfl

@[simp] theorem mode_advance (l : Lexer) (u r : List Char) : (l.advance u r).mode = l.mode := rfl

/-- Line ends that a block or comment takes along. -/
theorem lineEnd_take (s : List Char) : '\x7b' ∉ s.take (lineEndLength s) := by
  unfold lineEndLength
  split <;> simp

/-- A block or comment may take text along, none of which opens a tag. -/
theorem afterBlock_rest (space : BlockSpace) (l : Lexer) (m : Mark) :
    ∃ u, '\x7b' ∉ u ∧ l.rest = u ++ (afterBlock space l m).rest ∧
      (afterBlock space l m).offset = l.offset + byteLength u ∧ (afterBlock space l m).seen = l.seen ∧
      (afterBlock space l m).mode = l.mode := by
  have hsame : ∀ l' : Lexer, l'.rest = l.rest → l'.offset = l.offset → l'.seen = l.seen → l'.mode = l.mode →
      ∃ u, '\x7b' ∉ u ∧ l.rest = u ++ l'.rest ∧ l'.offset = l.offset + byteLength u ∧ l'.seen = l.seen ∧
        l'.mode = l.mode :=
    fun l' hr ho hs hm => ⟨[], by simp, hr.symm, ho, hs, hm⟩
  cases m with
  | none =>
    unfold afterBlock
    dsimp only
    split
    · exact ⟨l.rest.take (lineEndLength l.rest), lineEnd_take _, (List.take_append_drop _ _).symm, rfl, rfl, rfl⟩
    · exact hsame l rfl rfl rfl rfl
  | plus => exact hsame l rfl rfl rfl rfl
  | minus => exact hsame _ rfl rfl rfl rfl

/-- What a run makes of its input. -/
def Reads (space : BlockSpace) (fuel : Nat) : Prop :=
  ∀ l : Lexer, l.rest.length < fuel →
    (l.mode = .text → Outcome l.offset l.rest l.seen ((run space fuel l).tokens.map Spanned.token)
      (run space fuel l).fault (run space fuel l).tags) ∧
    (∀ kind d cur older, l.mode = .code kind d → l.seen = cur :: older →
      TagOutcome kind d l.offset l.rest cur older ((run space fuel l).tokens.map Spanned.token)
        (run space fuel l).fault (run space fuel l).tags)

variable {space : BlockSpace} {fuel : Nat}

/-- A run goes on after a block or comment. -/
theorem Reads.afterBlock (h : Reads space fuel) {l : Lexer} (hfuel : l.rest.length < fuel) (hmode : l.mode = .text)
    (m : Mark) : Outcome l.offset l.rest l.seen
      ((run space fuel (Lexer.afterBlock space l m)).tokens.map Spanned.token)
      (run space fuel (Lexer.afterBlock space l m)).fault (run space fuel (Lexer.afterBlock space l m)).tags := by
  obtain ⟨u, hu, hrest, hoffset, hseen, hmode'⟩ := afterBlock_rest space l m
  have hlen : (Lexer.afterBlock space l m).rest.length < fuel := by
    rw [hrest, List.length_append] at hfuel
    omega
  have hrun := (h _ hlen).1 (hmode'.trans hmode)
  rw [hoffset, hseen] at hrun
  have hchars := Outcome.chars (plainBefore_of_brace_free hu _) hrun
  rwa [← hrest] at hchars

theorem run_done {l : Lexer} {ts : List Spanned} (h : step space l = .done ts) :
    run space (fuel + 1) l = ⟨ts, none, l.seen.reverse⟩ := by
  rw [run, h]

theorem run_fault {l : Lexer} {ts : List Spanned} {e : Error} (h : step space l = .fault ts e) :
    run space (fuel + 1) l = ⟨ts, some e, l.seen.reverse⟩ := by
  rw [run, h]

theorem run_goOn {l l' : Lexer} {ts : List Spanned} (h : step space l = .goOn ts l') :
    run space (fuel + 1) l =
      { run space fuel l' with tokens := ts ++ (run space fuel l').tokens } := by
  rw [run, h]

end Lexer

theorem Coded.of_blanks {kind : TagKind} {d : Nat} {b s rest : List Char} {ws : List Token} {mark : Mark}
    (hb : ∀ c ∈ b, Text.isTokenBlank c = true) (h : Coded kind d (b ++ s) ws mark rest) :
    Coded kind d s ws mark rest := by
  induction b with
  | nil => exact h
  | cons c b ih =>
    exact ih (fun a ha => hb a (List.mem_cons_of_mem _ ha)) (h.of_blank (hb c List.mem_cons_self))

namespace TagOutcome

variable {kind : TagKind} {d o : Nat} {s : List Char} {cur : SeenTag} {older found : List SeenTag}
  {tokens : List Token} {fault : Option Error}

theorem blanks {b : List Char} (hb : ∀ c ∈ b, Text.isTokenBlank c = true)
    (h : TagOutcome kind d (o + byteLength b) s cur older tokens fault found) :
    TagOutcome kind d o (b ++ s) cur older tokens fault found := by
  rcases h with ⟨ws, mark, rest, stop, tokens', hcoded, hstop, hrest, htokens⟩ | ⟨hnone, hwords, hfound⟩
  · refine .inl ⟨ws, mark, rest, stop, tokens', hcoded.blanks hb, ?_, hrest, htokens⟩
    rw [byteLength_append]
    omega
  · exact .inr ⟨fun ⟨ws, mark, rest, hcoded⟩ => hnone ⟨ws, mark, rest, hcoded.of_blanks hb⟩, hwords, hfound⟩

/-- Nothing is read here. -/
theorem nothing (h : ¬ ∃ ws mark rest, Coded kind d s ws mark rest) :
    TagOutcome kind d o s cur older [] fault (older.reverse ++ [cur]) :=
  .inr ⟨h, nofun, cur.words, rfl⟩

theorem close {mark : Mark} {rest : List Char} (hc : closing? kind s = some (mark, rest))
    (h : Outcome (o + byteLength (mark.source ++ [kind.closes, '\x7d'])) rest
      ({ cur with stop := some (o + byteLength (mark.source ++ [kind.closes, '\x7d'])) } :: older)
      tokens fault found) :
    TagOutcome kind 0 o s cur older (Lexer.endToken kind :: tokens) fault found := by
  refine .inl ⟨[], mark, rest, o + byteLength (mark.source ++ [kind.closes, '\x7d']), tokens, .close hc,
    ?_, ?_, rfl⟩
  · rw [closing?_source hc, Nat.add_assoc, ← byteLength_append]
    simp
  · simpa using h

theorem word {t : Token} {n : Nat} (hopen : d = 0 → closing? kind s = none) (hw : WordAt s t n)
    (h : TagOutcome kind (depthAfter d t s) (o + byteLength (s.take n)) (s.drop n)
      { cur with words := cur.words ++ [t] } older tokens fault found) :
    TagOutcome kind d o s cur older (t :: tokens) fault found := by
  rcases h with ⟨ws, mark, rest, stop, tokens', hcoded, hstop, hrest, rfl⟩ | ⟨hnone, hwords, ws, rfl⟩
  · refine .inl ⟨t :: ws, mark, rest, stop, tokens', .word hopen hw hcoded, ?_, ?_, rfl⟩
    · rw [hstop, Nat.add_assoc, ← byteLength_append, List.take_append_drop]
    · simpa using hrest
  · refine .inr ⟨?_, ?_, ws, rfl⟩
    · rintro ⟨ws, mark, rest, hcoded⟩
      obtain ⟨ws', -, hcoded'⟩ := hcoded.of_word hopen hw
      exact hnone ⟨ws', mark, rest, hcoded'⟩
    · intro a ha
      rcases List.mem_cons.1 ha with rfl | ha
      · exact hw.isWord
      · exact hwords a ha

end TagOutcome

theorem not_coded_nil {kind : TagKind} {d : Nat} : ¬ ∃ ws mark rest, Coded kind d [] ws mark rest := by
  rintro ⟨ws, mark, rest, h⟩
  cases h with
  | close h => cases h
  | word _ hw _ =>
    obtain ⟨c, r, hc, -⟩ := hw.head
    cases hc

namespace Lexer

variable {space : BlockSpace} {fuel : Nat}

theorem codeStep_outcome (hreads : Reads space fuel) {l : Lexer} (hfuel : l.rest.length < fuel + 1)
    {kind : TagKind} {d : Nat} {cur : SeenTag} {older : List SeenTag} (hmode : l.mode = .code kind d)
    (hseen : l.seen = cur :: older) :
    TagOutcome kind d l.offset l.rest cur older ((run space (fuel + 1) l).tokens.map Spanned.token)
      (run space (fuel + 1) l).fault (run space (fuel + 1) l).tags := by
  obtain ⟨htake, hdrop⟩ := takeWhile_split Text.isTokenBlank l.rest
  have hblanks : ∀ c ∈ l.rest.takeWhile Text.isTokenBlank, Text.isTokenBlank c = true :=
    fun c hc => List.mem_takeWhile_imp hc
  generalize hl' : l.take (l.rest.takeWhile Text.isTokenBlank).length = l'
  have hrest : l'.rest = l.rest.dropWhile Text.isTokenBlank := by rw [← hl']; exact hdrop
  have hoffset : l'.offset = l.offset + byteLength (l.rest.takeWhile Text.isTokenBlank) := by
    rw [← hl']
    exact congrArg (fun u => l.offset + byteLength u) htake
  have hseen' : l'.seen = cur :: older := by rw [← hl']; exact hseen
  have hlen : l'.rest.length ≤ l.rest.length := by
    rw [hrest]
    exact List.length_dropWhile_le _ _
  have hstep : step space l = codeStep space kind d l := by rw [step, hmode]
  rw [← List.takeWhile_append_dropWhile (p := Text.isTokenBlank) (l := l.rest)]
  refine TagOutcome.blanks hblanks ?_
  rw [← hrest, ← hoffset]
  unfold codeStep at hstep
  rw [hl'] at hstep
  dsimp only at hstep
  by_cases he : l'.rest = []
  · have hdone : step space l = .done [] := by rw [hstep, he]; rfl
    rw [run_done hdone, he, hseen, List.reverse_cons]
    exact TagOutcome.nothing not_coded_nil
  · rw [if_neg (by simpa using he)] at hstep
    cases hclosing : (if d = 0 then closing? kind l'.rest else none) with
    | some p =>
      obtain ⟨mark, rest⟩ := p
      rw [hclosing] at hstep
      dsimp only at hstep
      have hd : d = 0 ∧ closing? kind l'.rest = some (mark, rest) := by
        split at hclosing
        · next hd => exact ⟨hd, hclosing⟩
        · cases hclosing
      obtain ⟨rfl, hclosing⟩ := hd
      generalize hclosed : (l'.advance (mark.source ++ [kind.closes, '\x7d']) rest).leave = l'' at hstep
      have hrest' : l''.rest = rest := by rw [← hclosed]; rfl
      have hoffset' : l''.offset = l'.offset + byteLength (mark.source ++ [kind.closes, '\x7d']) := by
        rw [← hclosed]
        rfl
      have hseen'' : l''.seen = { cur with stop := some l''.offset } :: older := by
        rw [hoffset', ← hclosed]
        simp [leave, hseen']
      have hmode'' : l''.mode = .text := by rw [← hclosed]; rfl
      have hlen' : l''.rest.length < fuel := by
        have := congrArg List.length (closing?_source hclosing)
        rw [List.length_append, List.length_cons, List.length_cons] at this
        rw [hrest']
        omega
      have hclose : ∀ l3 : Lexer, Outcome l''.offset l''.rest l''.seen
          ((run space fuel l3).tokens.map Spanned.token) (run space fuel l3).fault (run space fuel l3).tags →
          step space l = .goOn [l'.spanned (endToken kind)] l3 →
          TagOutcome kind 0 l'.offset l'.rest cur older ((run space (fuel + 1) l).tokens.map Spanned.token)
            (run space (fuel + 1) l).fault (run space (fuel + 1) l).tags := by
        intro l3 hl3 hgo
        rw [run_goOn hgo]
        rw [hseen'', hoffset', hrest'] at hl3
        exact TagOutcome.close hclosing hl3
      cases kind with
      | block => exact hclose _ (hreads.afterBlock hlen' hmode'' mark) hstep
      | expr =>
        refine hclose { l'' with dropBlanks := mark == .minus } ?_ hstep
        exact (hreads { l'' with dropBlanks := mark == .minus } hlen').1 hmode''
    | none =>
      rw [hclosing] at hstep
      dsimp only at hstep
      have hopen : d = 0 → closing? kind l'.rest = none := by
        intro hd
        rwa [if_pos hd] at hclosing
      rcases hword : l'.word with ⟨t, n⟩
      rw [hword] at hstep
      cases t with
      | error e =>
        rw [run_fault hstep, hseen, List.reverse_cons]
        refine TagOutcome.nothing ?_
        rintro ⟨ws, mark, rest, hcoded⟩
        generalize hs : l'.rest = s at hcoded
        rw [hs] at hopen
        cases hcoded with
        | close h =>
          rw [hopen rfl] at h
          cases h
        | blank hc _ =>
          rw [hrest] at hs
          rw [dropWhile_head hs] at hc
          cases hc
        | word _ hw _ =>
          rw [← hs] at hw
          rw [word_eq_ok_iff.2 hw] at hword
          cases hword
      | ok t =>
        have hw := word_eq_ok_iff.1 hword
        have hpos := hw.pos
        rw [run_goOn hstep]
        refine TagOutcome.word hopen hw ?_
        have hrun := (hreads ({ l'.take n with mode := .code kind (depthAfter d t l'.rest) }.noteWord t) ?_).2
          kind (depthAfter d t l'.rest) { cur with words := cur.words ++ [t] } older rfl ?_
        · exact hrun
        · have hne : 0 < l'.rest.length := List.length_pos_of_ne_nil he
          change (l'.rest.drop n).length < fuel
          rw [List.length_drop]
          omega
        · change l'.seen.modifyHead _ = _
          rw [hseen']
          rfl

end Lexer

/-- A sign in front of a comment belongs to it. -/
theorem splitAtMark_sign (m : Mark) (s : List Char) : Text.splitAtMark ['#', '\x7d'] (m.source ++ s) =
    (Text.splitAtMark ['#', '\x7d'] s).map fun p => (m.source ++ p.1, p.2) := by
  cases m with
  | none =>
    change Text.splitAtMark ['#', '\x7d'] s = _
    cases Text.splitAtMark ['#', '\x7d'] s <;> rfl
  | minus => rfl
  | plus => rfl

theorem stuck_comment {s s' : List Char} {m : Mark} (hlead : leadMark s = (m, s'))
    (h : Text.splitAtMark ['#', '\x7d'] s' = none) : Stuck ('\x7b' :: '#' :: s) := by
  refine ⟨rfl, fun k rest hk hsource => ?_⟩
  cases k with
  | char c => exact .inl ⟨c, rfl⟩
  | comment text =>
    rw [Chunk.source_comment] at hsource
    have hs : s = text ++ '#' :: '\x7d' :: rest := by simpa using hsource
    have hsome := hk rest
    rw [← hs, (leadMark_eq hlead).1, splitAtMark_sign, h] at hsome
    cases hsome
  | raw t section_ =>
    rw [Chunk.source_raw, Tag.source_eq] at hsource
    have hopens := (List.cons.inj (List.cons.inj hsource).2).1
    cases hkind : t.kind <;> rw [hkind] at hopens <;> exact absurd hopens (by decide)
  | tag t =>
    rw [Chunk.source_tag, Tag.source_eq] at hsource
    have hopens := (List.cons.inj (List.cons.inj hsource).2).1
    cases hkind : t.kind <;> rw [hkind] at hopens <;> exact absurd hopens (by decide)

theorem stuck_raw {s s' rest : List Char} {m before : Mark} (hlead : leadMark s = (m, s'))
    (hbare : Lexer.bareTag? "raw".toList s' = some (before, rest)) (h : Lexer.rawEnd? rest = none) :
    Stuck ('\x7b' :: '%' :: s) := by
  refine ⟨rfl, fun k rest' hk hsource => ?_⟩
  cases k with
  | char c => exact .inl ⟨c, rfl⟩
  | comment text =>
    rw [Chunk.source_comment] at hsource
    exact absurd (List.cons.inj (List.cons.inj hsource).2).1 (by decide)
  | raw t section_ =>
    rw [Chunk.source_raw, List.append_assoc] at hsource
    obtain ⟨hkind, hs⟩ := kind_of_opens .block hsource
    have hlead' := hk.1.lead (section_ ++ rest')
    rw [← hs, hlead] at hlead'
    have hsome := hk.2.1.2 (section_ ++ rest')
    rw [← (Prod.mk.inj hlead').2, hbare] at hsome
    obtain ⟨_, _, _, hend⟩ := hk.2.2 rest'
    rw [← (Prod.mk.inj (Option.some.inj hsome)).2, h] at hend
    cases hend
  | tag t =>
    rw [Chunk.source_tag] at hsource
    obtain ⟨hkind, hs⟩ := kind_of_opens .block hsource
    have hlead' := hk.1.lead rest'
    rw [← hs, hlead] at hlead'
    rw [(Prod.mk.inj hlead').2] at hbare
    exact absurd (hk.1.bare hkind hbare) hk.2

namespace Lexer

variable {space : BlockSpace} {fuel : Nat}

/-- What a step at an opening delimiter leads to, behind the tokens of the text in front of it. -/
theorem atOpener_outcome (hreads : Reads space fuel) (start : Lexer) {opener : Char} {rest inner : List Char}
    {m : Mark} (hlead : leadMark rest = (m, inner)) (hopener : opener ∈ ['\x7b', '%', '#'])
    (hmode : start.mode = .text) (hfuel : ('\x7b' :: opener :: rest).length < fuel + 1) (front : List Spanned)
    {l : Lexer} (hstep : step space l =
      atOpener space front start opener (start.advance ('\x7b' :: opener :: m.source) inner))
    (hseen : l.seen = start.seen) : ∃ tokens, (run space (fuel + 1) l).tokens = front ++ tokens ∧
      Outcome start.offset ('\x7b' :: opener :: rest) start.seen (tokens.map Spanned.token)
        (run space (fuel + 1) l).fault (run space (fuel + 1) l).tags := by
  have hinner : rest = m.source ++ inner := (leadMark_eq hlead).1
  have hshort : inner.length < fuel := by
    rw [hinner] at hfuel
    simp at hfuel
    omega
  generalize hl' : start.advance ('\x7b' :: opener :: m.source) inner = l' at hstep
  have hrest' : l'.rest = inner := by rw [← hl']; rfl
  have hoffset' : l'.offset = start.offset + byteLength ('\x7b' :: opener :: m.source) := by
    rw [← hl']
    rfl
  have hseen' : l'.seen = start.seen := by rw [← hl']; rfl
  have hmode' : l'.mode = .text := by rw [← hl']; exact hmode
  unfold atOpener at hstep
  by_cases hhash : opener = '#'
  · subst hhash
    rw [if_pos rfl, hrest'] at hstep
    cases hend : commentEnd? inner with
    | none =>
      rw [hend] at hstep
      have hnone : Text.splitAtMark ['#', '\x7d'] inner = none := by
        unfold commentEnd? at hend
        split at hend
        · assumption
        · cases hend
      refine ⟨[], by rw [run_fault hstep, List.append_nil], ?_⟩
      rw [run_fault hstep, hseen]
      have hhalts : Halts ('\x7b' :: '#' :: rest) [] (some (start.syntaxFault "unexpected end of comment")) [] :=
        .stuck (stuck_comment hlead hnone) (.inl nofun) (.inl nofun) nofun
      simpa using Outcome.of_halts (o := start.offset) hhalts
    | some p =>
      obtain ⟨mark, taken, rest'⟩ := p
      rw [hend] at hstep
      obtain ⟨text, hsplit, htaken⟩ : ∃ text, Text.splitAtMark ['#', '\x7d'] inner = some (text, rest') ∧
          taken = text ++ ['#', '\x7d'] := by
        unfold commentEnd? at hend
        split at hend
        · cases hend
        · next text r hsplit =>
          cases hend
          exact ⟨text, hsplit, rfl⟩
      have hsplit' : Text.splitAtMark ['#', '\x7d'] rest = some (m.source ++ text, rest') := by
        rw [hinner, splitAtMark_sign, hsplit]
        rfl
      refine ⟨_, by rw [run_goOn hstep], ?_⟩
      rw [run_goOn hstep]
      refine Outcome.of_comment hsplit' ?_
      have hinner' : inner = taken ++ rest' := by
        rw [splitAtMark_source hsplit, htaken]
        simp
      have hlen : (l'.advance taken rest').rest.length < fuel := by
        rw [hinner', List.length_append] at hshort
        change rest'.length < fuel
        omega
      have hrun := hreads.afterBlock hlen hmode' mark
      have hoffset : start.offset + (byteLength ('\x7b' :: '#' :: rest) - byteLength rest') =
          (l'.advance taken rest').offset := by
        have hbytes : byteLength ('\x7b' :: '#' :: rest) =
            byteLength ('\x7b' :: '#' :: m.source) + byteLength taken + byteLength rest' := by
          rw [← byteLength_append, ← byteLength_append, hinner, hinner']
          simp
        rw [offset_advance, hoffset', hbytes]
        omega
      rw [hoffset]
      rw [seen_advance, hseen'] at hrun
      exact hrun
  · rw [if_neg hhash] at hstep
    by_cases hpercent : opener = '%'
    · subst hpercent
      rw [if_pos rfl, hrest'] at hstep
      cases hbare : bareTag? "raw".toList inner with
      | none =>
        rw [hbare] at hstep
        refine ⟨_, by rw [run_goOn hstep, List.append_assoc], ?_⟩
        rw [run_goOn hstep]
        have hrun := (hreads (l'.enter .block start.offset) (by rw [← hrest'] at hshort; exact hshort)).2 .block 0
          { kind := .block, start := start.offset } start.seen rfl (by rw [← hseen']; rfl)
        change TagOutcome .block 0 l'.offset l'.rest _ _ _ _ _ at hrun
        rw [hoffset', hrest'] at hrun
        exact Outcome.of_tag .block hlead (fun _ => hbare) hrun
      | some p =>
        obtain ⟨before, rest1⟩ := p
        rw [hbare] at hstep
        obtain ⟨v, -, -, hinner', -⟩ := bareTag?_local ⟨'r', "aw".toList, rfl, by decide⟩ (by decide) hbare
        have htake : inner.take (inner.length - rest1.length) = v := by
          rw [hinner', List.length_append, Nat.add_sub_cancel, List.take_left' rfl]
        dsimp only at hstep
        rw [htake] at hstep
        cases hend : rawEnd? rest1 with
        | none =>
          rw [hend] at hstep
          refine ⟨[], by rw [run_fault hstep, List.append_nil], ?_⟩
          rw [run_fault hstep, hseen]
          have hhalts : Halts ('\x7b' :: '%' :: rest) []
              (some ((l'.advance v rest1).syntaxFault "unexpected end of raw block")) [] :=
            .stuck (stuck_raw hlead hbare hend) (.inl nofun) (.inl nofun) nofun
          simpa using Outcome.of_halts (o := start.offset) hhalts
        | some p =>
          obtain ⟨text, after, trail, rest'⟩ := p
          rw [hend] at hstep
          dsimp only at hstep
          obtain ⟨w, -, hrest1, -⟩ := rawEnd?_local hend
          have htake' : rest1.take (rest1.length - rest'.length) = w := by
            rw [hrest1, List.length_append, Nat.add_sub_cancel, List.take_left' rfl]
          rw [htake'] at hstep
          have hbytes : byteLength ('\x7b' :: '%' :: rest) =
              byteLength ('\x7b' :: '%' :: m.source) + byteLength v + byteLength rest1 := by
            rw [← byteLength_append, ← byteLength_append, hinner, hinner']
            simp
          have hbytes' : byteLength rest1 = byteLength w + byteLength rest' := by
            rw [← byteLength_append, ← hrest1]
          refine ⟨_, by rw [run_goOn hstep, List.append_assoc], ?_⟩
          rw [run_goOn hstep]
          refine Outcome.of_raw (l'.offset + byteLength v) hlead hbare hend ?_ _ ?_
          · rw [hoffset', hbytes]
            omega
          · have hlen : rest'.length < fuel := by
              rw [hinner', hrest1] at hshort
              simp at hshort
              omega
            have hrun := hreads.afterBlock
              (l := { (l'.advance v rest1).advance w rest' with
                seen := ⟨.block, start.offset, some (l'.offset + byteLength v), [.name "raw"]⟩ :: l'.seen })
              hlen hmode' trail
            have hoffset : start.offset + (byteLength ('\x7b' :: '%' :: rest) - byteLength rest') =
                l'.offset + byteLength v + byteLength w := by
              rw [hoffset', hbytes]
              omega
            rw [hoffset, ← hseen']
            exact hrun
    · rw [if_neg hpercent] at hstep
      have hbrace : opener = '\x7b' := by
        simp only [List.mem_cons, List.not_mem_nil, or_false] at hopener
        tauto
      subst hbrace
      refine ⟨_, by rw [run_goOn hstep, List.append_assoc], ?_⟩
      rw [run_goOn hstep]
      have hrun := (hreads (l'.enter .expr start.offset) (by rw [← hrest'] at hshort; exact hshort)).2 .expr 0
        { kind := .expr, start := start.offset } start.seen rfl (by rw [← hseen']; rfl)
      change TagOutcome .expr 0 l'.offset l'.rest _ _ _ _ _ at hrun
      rw [hoffset', hrest'] at hrun
      exact Outcome.of_tag .expr hlead nofun hrun

theorem leadText_nil (space : BlockSpace) (isExpr blankBefore : Bool) (m : Mark) :
    leadText space isExpr blankBefore [] m = [] := by
  cases m with
  | none =>
    unfold leadText
    dsimp only
    split <;> rfl
  | plus => rfl
  | minus => rfl

theorem takeWhile_blank_brace_free (s : List Char) : '\x7b' ∉ s.takeWhile Text.isBlank := by
  intro hmem
  exact absurd (List.mem_takeWhile_imp hmem) (by decide)

/-- Blanks in front of the text may be dropped. -/
theorem dropped_rest (l : Lexer) : ∃ u, '\x7b' ∉ u ∧
    l.rest = u ++ (if l.dropBlanks then
      { l.take (l.rest.takeWhile Text.isBlank).length with dropBlanks := false } else l).rest ∧
    (if l.dropBlanks then
      { l.take (l.rest.takeWhile Text.isBlank).length with dropBlanks := false } else l).offset =
        l.offset + byteLength u ∧
    (if l.dropBlanks then
      { l.take (l.rest.takeWhile Text.isBlank).length with dropBlanks := false } else l).seen = l.seen ∧
    (if l.dropBlanks then
      { l.take (l.rest.takeWhile Text.isBlank).length with dropBlanks := false } else l).mode = l.mode := by
  split
  · obtain ⟨htake, hdrop⟩ := takeWhile_split Text.isBlank l.rest
    refine ⟨l.rest.takeWhile Text.isBlank, takeWhile_blank_brace_free _, ?_, ?_, rfl, rfl⟩
    · change l.rest = _ ++ l.rest.drop _
      rw [hdrop, List.takeWhile_append_dropWhile]
    · change l.offset + byteLength (l.rest.take _) = _
      rw [htake]
  · exact ⟨[], by simp, rfl, rfl, rfl, rfl⟩

theorem textStep_outcome (hreads : Reads space fuel) {l : Lexer} (hfuel : l.rest.length < fuel + 1)
    (hmode : l.mode = .text) : Outcome l.offset l.rest l.seen
      ((run space (fuel + 1) l).tokens.map Spanned.token) (run space (fuel + 1) l).fault
      (run space (fuel + 1) l).tags := by
  have hstep : step space l = textStep space l := by rw [step, hmode]
  obtain ⟨u, hu, hrest, hoffset, hseen, hmode'⟩ := dropped_rest l
  unfold textStep at hstep
  generalize (if l.dropBlanks then
    { l.take (l.rest.takeWhile Text.isBlank).length with dropBlanks := false } else l) = l'
    at hstep hrest hoffset hseen hmode'
  rw [hrest]
  refine Outcome.chars (plainBefore_of_brace_free hu _) ?_
  rw [← hoffset]
  dsimp only at hstep
  rcases hnext : nextOpener l'.rest with ⟨lead, o⟩
  cases o with
  | none =>
    obtain ⟨rfl, hplain⟩ := nextOpener_none hnext
    rw [hnext] at hstep
    have hend : Outcome (l'.offset + byteLength l'.rest) [] l.seen [] none l.seen.reverse := by
      simpa using Outcome.of_halts Halts.done
    rw [run_done hstep, ← List.append_nil l'.rest]
    by_cases he : l'.rest = []
    · rw [he] at hend ⊢
      exact hend
    · have hne : l'.rest.isEmpty = false := by simpa using he
      rw [List.append_nil, hne]
      have := Outcome.text hplain he (String.ofList l'.rest) hend
      rwa [List.append_nil] at this
  | some p =>
    obtain ⟨opener, rest⟩ := p
    obtain ⟨hsource, hopener, hplain⟩ := nextOpener_some hnext
    rw [hnext] at hstep
    rcases hlead : leadMark rest with ⟨m, inner⟩
    dsimp only at hstep
    rw [hlead] at hstep
    dsimp only at hstep
    have hfuel' : ('\x7b' :: opener :: rest).length < fuel + 1 := by
      rw [hrest, hsource, List.length_append, List.length_append] at hfuel
      omega
    obtain ⟨tokens, htokens, hout⟩ := atOpener_outcome hreads
      (l'.advance lead ('\x7b' :: opener :: rest)) hlead hopener (hmode'.trans hmode) hfuel' _ hstep hseen.symm
    rw [htokens, hsource, List.map_append]
    rw [offset_advance, seen_advance, hseen] at hout
    split
    · exact Outcome.chars hplain hout
    · next htext =>
      refine Outcome.text hplain ?_ _ hout
      rintro rfl
      rw [leadText_nil] at htext
      exact htext rfl

theorem reads (space : BlockSpace) (fuel : Nat) : Reads space fuel := by
  induction fuel with
  | zero => exact fun l hl => absurd hl (Nat.not_lt_zero _)
  | succ fuel ih =>
    intro l hl
    exact ⟨fun hmode => textStep_outcome ih hl hmode,
      fun kind d cur older hmode hseen => codeStep_outcome ih hl hmode hseen⟩

end Lexer

/-- What the lexer reads from a source, but for the line end at its end. -/
theorem tokenize_outcome (space : BlockSpace) (source : List Char) :
    Outcome 0 (withoutLastLineEnd source) [] ((tokenize space source).tokens.map Spanned.token)
      (tokenize space source).fault (tokenize space source).tags :=
  (Lexer.reads space _ { rest := withoutLastLineEnd source } (Nat.lt_succ_self _)).1 rfl

end SecureLayout.Template
