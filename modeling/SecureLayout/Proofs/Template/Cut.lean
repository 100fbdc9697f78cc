import SecureLayout.Proofs.Template.Local
import SecureLayout.Proofs.Template.TagNames

/-!
A source cut into chunks as the lexer cuts it. Main statements: a source has one cut, and the scanner makes
it, so long as the tags that end raw sections hold no blanks but those of the lexer.
-/

namespace SecureLayout.Template

/-- A plain character, a comment, a raw tag with its section, or another tag. -/
inductive Chunk where
  | char (c : Char)
  | comment (text : List Char)
  | raw (t : Tag) (section_ : List Char)
  | tag (t : Tag)
  deriving DecidableEq, Repr

namespace Chunk

def pieces : Chunk → List Piece
  | char c => [.char c]
  | comment text => [.hidden ('\x7b' :: '#' :: (text ++ ['#', '\x7d']))]
  | raw t section_ => [.tag t, .hidden section_]
  | tag t => [.tag t]

def source (k : Chunk) : List Char :=
  k.pieces.flatMap Piece.source

end Chunk

def cutSource (ks : List Chunk) : List Char :=
  ks.flatMap Chunk.source

@[simp] theorem cutSource_nil : cutSource [] = [] := rfl

@[simp] theorem cutSource_cons (k : Chunk) (ks : List Chunk) :
    cutSource (k :: ks) = k.source ++ cutSource ks := rfl

@[simp] theorem cutSource_append (ks ls : List Chunk) :
    cutSource (ks ++ ls) = cutSource ks ++ cutSource ls :=
  List.flatMap_append

/-- A brace with the second character of an opening delimiter. -/
def opensTag : List Char → Bool
  | '\x7b' :: c :: _ => c == '\x7b' || c == '%' || c == '#'
  | _ => false

/-- The tag opens a raw section for the scanner. -/
def Tag.isRaw (t : Tag) : Bool :=
  t.kind == .block && t.keyword == "raw".toList

/-- The tag opens a raw section for the lexer: nothing but blanks stands beside its name. -/
def Tag.IsBare (t : Tag) : Prop :=
  t.kind = .block ∧ ∀ rest, Lexer.bareTag? "raw".toList (t.inner ++ rest) = some (t.trail, rest)

/-- The chunk is read from its own characters. -/
def Chunk.IsLocal : Chunk → Prop
  | .char _ => True
  | .comment text => ∀ rest, Text.splitAtMark ['#', '\x7d'] (text ++ '#' :: '\x7d' :: rest) = some (text, rest)
  | .raw t section_ => t.IsScanned ∧ t.IsBare ∧
      ∀ rest, ∃ text lead trail, Lexer.rawEnd? (section_ ++ rest) = some (text, lead, trail, rest)
  | .tag t => t.IsScanned ∧ ¬ t.IsBare

/-- A text is cut from its beginning: no character of the chunks opens a tag, and `r` is left. -/
inductive Cut : List Chunk → List Char → Prop
  | nil (r : List Char) : Cut [] r
  | cons {k : Chunk} {ks : List Chunk} {r : List Char} (hk : k.IsLocal)
      (hc : ∀ c, k = .char c → opensTag (c :: (cutSource ks ++ r)) = false) (h : Cut ks r) : Cut (k :: ks) r

/-! ### One text has one cut -/

theorem Tag.opensTag_source (t : Tag) (r : List Char) : opensTag (t.source ++ r) = true := by
  rw [Tag.source_eq]
  cases t.kind <;> rfl

theorem Tag.source_append (t : Tag) (r : List Char) :
    t.source ++ r = '\x7b' :: t.kind.opens :: (t.lead.source ++ (t.inner ++ r)) := by
  simp [Tag.source_eq]

theorem TagKind.opens_injective {k k' : TagKind} (h : k.opens = k'.opens) : k = k' := by
  cases k <;> cases k' <;> first
    | rfl
    | exact absurd h (by decide)

theorem Tag.IsScanned.unique {t t' : Tag} {x y : List Char} (h : t.IsScanned) (h' : t'.IsScanned)
    (hs : t.source ++ x = t'.source ++ y) : t = t' ∧ x = y := by
  rw [Tag.source_append, Tag.source_append] at hs
  obtain ⟨hk, hs⟩ := List.cons.inj (List.cons.inj hs).2
  have hkind := TagKind.opens_injective hk
  have ht := h.tag? x
  have ht' := h'.tag? y
  rw [hs, hkind, ht'] at ht
  cases ht
  exact ⟨rfl, rfl⟩

namespace Chunk

theorem source_char (c : Char) : (Chunk.char c).source = [c] := rfl

theorem source_comment (text : List Char) :
    (Chunk.comment text).source = '\x7b' :: '#' :: (text ++ ['#', '\x7d']) := by
  simp [source, pieces, Piece.source]

theorem source_raw (t : Tag) (section_ : List Char) :
    (Chunk.raw t section_).source = t.source ++ section_ := by
  simp [source, pieces, Piece.source]

theorem source_tag (t : Tag) : (Chunk.tag t).source = t.source := by
  simp [source, pieces, Piece.source]

/-- Every chunk but a character opens a tag. -/
theorem opensTag_source {k : Chunk} (h : ∀ c, k ≠ .char c) (r : List Char) :
    opensTag (k.source ++ r) = true := by
  cases k with
  | char c => exact absurd rfl (h c)
  | comment text => rw [source_comment]; rfl
  | raw t section_ => rw [source_raw, List.append_assoc, t.opensTag_source]
  | tag t => rw [source_tag, t.opensTag_source]

theorem comment_ne_tag {text : List Char} {t : Tag} {x y : List Char} :
    (Chunk.comment text).source ++ x ≠ t.source ++ y := by
  intro h
  rw [source_comment, Tag.source_append] at h
  have hopen := (List.cons.inj (List.cons.inj h).2).1
  revert hopen
  cases t.kind <;> decide

theorem IsLocal.unique {k l : Chunk} {x y : List Char} (hk : k.IsLocal) (hl : l.IsLocal)
    (hkc : ∀ c, k = .char c → opensTag (c :: x) = false)
    (hlc : ∀ c, l = .char c → opensTag (c :: y) = false) (hs : k.source ++ x = l.source ++ y) :
    k = l ∧ x = y := by
  have hchar : ∀ {k l : Chunk} {x y : List Char} {c : Char}, k = .char c → (∀ a, l ≠ .char a) →
      opensTag (c :: x) = false → k.source ++ x = l.source ++ y → False := by
    rintro k l x y c rfl hne hopen hs
    rw [source_char, List.singleton_append] at hs
    rw [hs, opensTag_source hne] at hopen
    cases hopen
  cases k with
  | char c =>
    cases l with
    | char a =>
      cases hs
      exact ⟨rfl, rfl⟩
    | _ => exact (hchar rfl (by simp) (hkc c rfl) hs).elim
  | comment text =>
    cases l with
    | char a => exact (hchar rfl (by simp) (hlc a rfl) hs.symm).elim
    | comment text' =>
      rw [source_comment, source_comment] at hs
      have hs := (List.cons.inj (List.cons.inj hs).2).2
      have h := hk x
      have h' := hl y
      rw [show text ++ '#' :: '\x7d' :: x = text' ++ '#' :: '\x7d' :: y by simpa using hs, h'] at h
      cases h
      exact ⟨rfl, rfl⟩
    | raw t section_ =>
      rw [source_raw, List.append_assoc] at hs
      exact absurd hs comment_ne_tag
    | tag t =>
      rw [source_tag] at hs
      exact absurd hs comment_ne_tag
  | raw t section_ =>
    rw [source_raw, List.append_assoc] at hs
    cases l with
    | char a =>
      refine (hchar rfl (l := .raw t section_) (y := x) (by simp) (hlc a rfl) ?_).elim
      rw [source_raw, List.append_assoc]
      exact hs.symm
    | comment text => exact absurd hs.symm comment_ne_tag
    | raw t' section' =>
      rw [source_raw, List.append_assoc] at hs
      obtain ⟨rfl, htail⟩ := hk.1.unique hl.1 hs
      obtain ⟨_, _, _, h⟩ := hk.2.2 x
      obtain ⟨_, _, _, h'⟩ := hl.2.2 y
      rw [htail, h'] at h
      cases h
      exact ⟨by rw [List.append_cancel_right htail], rfl⟩
    | tag t' =>
      rw [source_tag] at hs
      obtain ⟨rfl, -⟩ := hk.1.unique hl.1 hs
      exact absurd hk.2.1 hl.2
  | tag t =>
    rw [source_tag] at hs
    cases l with
    | char a =>
      refine (hchar rfl (l := .tag t) (y := x) (by simp) (hlc a rfl) ?_).elim
      rw [source_tag]
      exact hs.symm
    | comment text => exact absurd hs.symm comment_ne_tag
    | raw t' section' =>
      rw [source_raw, List.append_assoc] at hs
      obtain ⟨rfl, -⟩ := hk.1.unique hl.1 hs
      exact absurd hl.2.1 hk.2
    | tag t' =>
      rw [source_tag] at hs
      obtain ⟨rfl, htail⟩ := hk.1.unique hl.1 hs
      exact ⟨rfl, htail⟩

end Chunk

/-- Of two cuts of a text one goes on where the other stops. -/
theorem Cut.unique {ks ls : List Chunk} {r r' : List Char} (h : Cut ks r) (h' : Cut ls r')
    (hs : cutSource ks ++ r = cutSource ls ++ r') :
    (∃ more, ks = ls ++ more ∧ r' = cutSource more ++ r) ∨
      ∃ more, ls = ks ++ more ∧ r = cutSource more ++ r' := by
  induction h generalizing ls with
  | nil r => exact .inr ⟨ls, rfl, hs⟩
  | @cons k ks r hk hc h ih =>
    cases h' with
    | nil => exact .inl ⟨k :: ks, rfl, hs.symm⟩
    | @cons l ls _ hl hlc h' =>
      rw [cutSource_cons, cutSource_cons, List.append_assoc, List.append_assoc] at hs
      obtain ⟨rfl, htail⟩ := hk.unique hl hc hlc hs
      rcases ih h' htail with ⟨more, rfl, hr⟩ | ⟨more, rfl, hr⟩
      · exact .inl ⟨more, rfl, hr⟩
      · exact .inr ⟨more, rfl, hr⟩

/-! ### Raw tags -/

theorem Coded.blanks {kind : TagKind} {d : Nat} {b s rest : List Char} {ws : List Token} {mark : Mark}
    (hb : ∀ c ∈ b, Text.isTokenBlank c = true) (h : Coded kind d s ws mark rest) :
    Coded kind d (b ++ s) ws mark rest := by
  induction b with
  | nil => exact h
  | cons c b ih =>
    exact .blank (hb c List.mem_cons_self) (ih fun a ha => hb a (List.mem_cons_of_mem _ ha))

theorem not_isNamePart_of_isTokenBlank {c : Char} (h : Text.isTokenBlank c = true) :
    Text.isNamePart c = false := by
  cases hp : Text.isNamePart c with
  | false => rfl
  | true =>
    have hblank := isBlank_of_isTokenBlank h
    rw [not_isBlank_of_isNamePart hp] at hblank
    cases hblank

/-- A bare tag holds one word. -/
theorem bareTag?_coded {s rest : List Char} {m : Mark} (h : Lexer.bareTag? "raw".toList s = some (m, rest)) :
    Coded .block 0 s [.name "raw"] m rest := by
  have hsolid : isSolid "raw".toList := ⟨'r', "aw".toList, rfl, by decide⟩
  obtain ⟨b, b', hb, hb', rfl⟩ := (bareTag?_iff hsolid).1 h
  have hclose : Coded .block 0 (m.source ++ '%' :: '\x7d' :: rest) [] m rest :=
    .close (closing?_of_source .block m rest)
  have hend := hclose.blanks hb'
  refine Coded.blanks hb ?_
  generalize htail : b' ++ (m.source ++ '%' :: '\x7d' :: rest) = tail at hend
  have hhead : ∃ c r, tail = c :: r ∧ Text.isNamePart c = false := by
    rw [← htail]
    cases b' with
    | nil =>
      obtain ⟨c, r, hc, hmem⟩ := mark_closes_head m rest
      have hall : ∀ x ∈ ['-', '+', '%'], Text.isNamePart x = false := List.all_iff_forall_prop.1 (by decide)
      exact ⟨c, r, hc, hall c hmem⟩
    | cons c b' => exact ⟨c, _, rfl, not_isNamePart_of_isTokenBlank (hb' c List.mem_cons_self)⟩
  obtain ⟨c, r, rfl, hc⟩ := hhead
  have htake : ('r' :: 'a' :: 'w' :: c :: r).takeWhile Text.isNamePart = ['r', 'a', 'w'] := by
    rw [List.takeWhile_cons_of_pos (by decide), List.takeWhile_cons_of_pos (by decide),
      List.takeWhile_cons_of_pos (by decide), List.takeWhile_cons_of_neg (by simp [hc])]
  have hword : WordAt ('r' :: 'a' :: 'w' :: c :: r) (.name "raw") 3 := by
    have := WordAt.name (c := 'r') (r := 'a' :: 'w' :: c :: r) (by decide)
    rw [htake] at this
    exact this
  exact .word (fun _ => closing?_eq_none _ (by decide)) hword hend

theorem Tag.keyword_eq (t : Tag) : t.keyword = leadingName t.body := rfl

/-- A bare tag is read whole, and its keyword says so. -/
theorem bareTag?_tag {lead m : Mark} {s s' rest : List Char} (hlead : leadMark s = (lead, s'))
    (h : Lexer.bareTag? "raw".toList s' = some (m, rest)) :
    ∃ t : Tag, t.lead = lead ∧ t.trail = m ∧ s' = t.inner ++ rest ∧ t.IsScanned ∧ t.IsBare ∧
      t.isRaw = true := by
  have hcoded := bareTag?_coded h
  obtain ⟨b, hb⟩ := hcoded.scanned
  have hs' := body?_source hb
  have htag : tag? .block s = some (⟨.block, lead, b, m⟩, rest) := by
    unfold tag?
    rw [hlead]
    dsimp only
    rw [hb]
    rfl
  obtain ⟨hscanned, -, -⟩ := tag?_isScanned htag
  have hinner : ∀ x, (Tag.mk .block lead b m).inner ++ x = b ++ (m.source ++ '%' :: '\x7d' :: x) :=
    Tag.inner_append _
  refine ⟨⟨.block, lead, b, m⟩, rfl, rfl, ?_, hscanned, ⟨rfl, fun rest' => ?_⟩, ?_⟩
  · rw [hinner]
    exact hs'
  · obtain ⟨v, -, -, hv, hlocal⟩ := bareTag?_local ⟨'r', "aw".toList, rfl, by decide⟩ (by decide) h
    rw [hs', show b ++ (m.source ++ TagKind.block.closes :: '\x7d' :: rest) =
      (Tag.mk .block lead b m).inner ++ rest from (hinner rest).symm] at hv
    rw [List.append_cancel_right hv]
    exact hlocal rest'
  · have hname := (hcoded.leadingName_iff hb (c := 'r') (by decide) ['a', 'w']).2 ⟨[], rfl⟩
    simp only [Tag.isRaw, Tag.keyword_eq, hname]
    rfl

/-- The lexer finds a bare name in no other tag. -/
theorem Tag.IsScanned.bare {t : Tag} (h : t.IsScanned) (hkind : t.kind = .block) {rest r : List Char} {m : Mark}
    (hb : Lexer.bareTag? "raw".toList (t.inner ++ rest) = some (m, r)) : t.IsBare := by
  obtain ⟨t', hlead, hm, hs, hscanned, hbare, -⟩ := bareTag?_tag (h.lead rest) hb
  have hbody := h.body rest
  have hbody' := hscanned.body r
  rw [hs, hkind, ← hbare.1, hbody'] at hbody
  have heq : t' = t := by
    have hk := hbare.1
    cases t
    cases t'
    cases hbody
    cases hlead
    cases hkind
    cases hk
    rfl
  rw [← heq]
  exact hbare

theorem Tag.IsBare.isRaw {t : Tag} (h : t.IsScanned) (hb : t.IsBare) : t.isRaw = true := by
  obtain ⟨t', hlead, hm, hs, hscanned, hbare, hraw⟩ := bareTag?_tag (h.lead []) (hb.2 [])
  have hsource : t.source ++ [] = t'.source ++ [] := by
    rw [Tag.source_append, Tag.source_append, hs, hlead, hb.1, hbare.1]
  rw [(h.unique hscanned hsource).1]
  exact hraw

/-! ### The cut that the scanner makes -/

/-- The tag that ends a raw section, with blanks on both sides of the name. -/
def rawEndTag (lead : Mark) (b b' : List Char) (trail : Mark) : List Char :=
  '\x7b' :: '%' :: (lead.source ++ (b ++ ("endraw".toList ++ (b' ++ (trail.source ++ ['%', '\x7d'])))))

/-- A section with the tag that ends it, where only token blanks stand beside the name in that tag. -/
def PlainEnd (section_ : List Char) : Prop :=
  ∃ (text : List Char) (lead : Mark) (b b' : List Char) (trail : Mark),
    (∀ c ∈ b, Text.isTokenBlank c = true) ∧ (∀ c ∈ b', Text.isTokenBlank c = true) ∧
      section_ = text ++ rawEndTag lead b b' trail

theorem trimStart_of_split {b : List Char} (hb : ∀ c ∈ b, Text.isBlank c = true) {c : Char}
    (hc : Text.isBlank c = false) (r : List Char) : Text.trimStart (b ++ c :: r) = c :: r :=
  dropWhile_of_split hb hc r

theorem leadMark_mark_closes (m : Mark) (rest : List Char) :
    leadMark (m.source ++ '%' :: '\x7d' :: rest) = (m, '%' :: '\x7d' :: rest) := by
  cases m <;> rfl

/-- What ends a raw section for the lexer ends it for the scanner. -/
theorem afterEndRaw?_of_bareTag? {s rest : List Char} {m : Mark}
    (h : Lexer.bareTag? "endraw".toList (leadMark s).2 = some (m, rest)) :
    afterEndRaw? ('\x7b' :: '%' :: s) = some rest := by
  obtain ⟨b, b', hb, hb', hs⟩ := (bareTag?_iff endraw_isSolid).1 h
  have hname : Text.trimStart (leadMark s).2 =
      "endraw".toList ++ (b' ++ (m.source ++ '%' :: '\x7d' :: rest)) := by
    rw [hs]
    exact trimStart_of_split (fun c hc => isBlank_of_isTokenBlank (hb c hc)) (by decide) _
  have hend : Text.trimStart (b' ++ (m.source ++ '%' :: '\x7d' :: rest)) =
      m.source ++ '%' :: '\x7d' :: rest := by
    obtain ⟨c, r, hc, hmem⟩ := mark_closes_head m rest
    have hall : ∀ x ∈ ['-', '+', '%'], Text.isBlank x = false := List.all_iff_forall_prop.1 (by decide)
    rw [hc]
    exact trimStart_of_split (fun c hc => isBlank_of_isTokenBlank (hb' c hc)) (hall c hmem) _
  have hopen : Text.stripStart ['\x7b', '%'] ('\x7b' :: '%' :: s) = some s := rfl
  simp only [afterEndRaw?, hopen, Option.bind_eq_bind, Option.bind_some, hname, stripStart_append, hend,
    leadMark_mark_closes]
  rfl

/-- The tag that ends a raw section holds one brace, at its beginning. -/
theorem afterEndRaw?_source {s rest : List Char} (h : afterEndRaw? s = some rest) :
    ∃ v, s = '\x7b' :: (v ++ rest) ∧ '\x7b' ∉ v := by
  simp only [afterEndRaw?, Option.bind_eq_bind, Option.bind_eq_some_iff] at h
  obtain ⟨s1, h1, s2, h2, h3⟩ := h
  have hmark : ∀ m : Mark, '\x7b' ∉ m.source := by
    intro m
    cases m <;> decide
  have hblank : ∀ {b : List Char}, (∀ c ∈ b, Text.isBlank c = true) → '\x7b' ∉ b := by
    intro b hb hmem
    exact absurd (hb _ hmem) (by decide)
  obtain ⟨b, hb, hs1⟩ := dropWhile_split (rfl : (leadMark s1).2.dropWhile Text.isBlank = _)
  obtain ⟨b', hb', hs2⟩ := dropWhile_split (rfl : s2.dropWhile Text.isBlank = _)
  have hm1 := leadMark_source s1
  have hm2 := leadMark_source (s2.dropWhile Text.isBlank)
  refine ⟨'%' :: ((leadMark s1).1.source ++ (b ++ ("endraw".toList ++ (b' ++
    ((leadMark (s2.dropWhile Text.isBlank)).1.source ++ ['%', '\x7d']))))), ?_, ?_⟩
  · have h2 := stripStart_iff.1 h2
    have h3 := stripStart_iff.1 h3
    have hs2' : s2 = b' ++ ((leadMark (s2.dropWhile Text.isBlank)).1.source ++ '%' :: '\x7d' :: rest) := by
      conv_lhs => rw [hs2, ← hm2]
      rw [show (leadMark (s2.dropWhile Text.isBlank)).2 = _ from h3]
      rfl
    have hs1' : s1 = (leadMark s1).1.source ++ (b ++ ("endraw".toList ++ s2)) := by
      conv_lhs => rw [← hm1, hs1]
      rw [show (leadMark s1).2.dropWhile Text.isBlank = _ from h2]
    rw [stripStart_iff.1 h1]
    conv_lhs => rw [hs1']
    conv_lhs => rw [hs2']
    simp
  · simp only [List.mem_cons, List.mem_append, List.not_mem_nil, or_false, not_or]
    exact ⟨by decide, hmark _, hblank hb, by decide, hblank hb', hmark _, by decide, by decide⟩

theorem bareTag?_endTag {b b' : List Char} (hb : ∀ c ∈ b, Text.isTokenBlank c = true)
    (hb' : ∀ c ∈ b', Text.isTokenBlank c = true) (lead trail : Mark) (rest : List Char) :
    ∃ s r, rawEndTag lead b b' trail ++ rest = '\x7b' :: '%' :: s ∧ leadMark s = (lead, r) ∧
      Lexer.bareTag? "endraw".toList r = some (trail, rest) := by
  refine ⟨lead.source ++ (b ++ ("endraw".toList ++ (b' ++ (trail.source ++ '%' :: '\x7d' :: rest)))),
    b ++ ("endraw".toList ++ (b' ++ (trail.source ++ '%' :: '\x7d' :: rest))), by simp [rawEndTag],
    leadMark_of_source fun _ c s hs => ?_, (bareTag?_iff endraw_isSolid).2 ⟨b, b', hb, hb', rfl⟩⟩
  cases b with
  | nil =>
    cases hs
    exact ⟨by decide, by decide⟩
  | cons a b =>
    cases hs
    have hblank := hb c List.mem_cons_self
    constructor <;> rintro rfl <;> exact absurd hblank (by decide)

theorem rawEnd?_endTag {b b' : List Char} (hb : ∀ c ∈ b, Text.isTokenBlank c = true)
    (hb' : ∀ c ∈ b', Text.isTokenBlank c = true) (lead trail : Mark) (rest : List Char) :
    Lexer.rawEnd? (rawEndTag lead b b' trail ++ rest) = some ([], lead, trail, rest) := by
  obtain ⟨s, r, hs, hlead, hbare⟩ := bareTag?_endTag hb hb' lead trail rest
  rw [hs, Lexer.rawEnd?, hlead]
  dsimp only
  rw [hbare]

theorem afterEndRaw?_endTag {b b' : List Char} (hb : ∀ c ∈ b, Text.isTokenBlank c = true)
    (hb' : ∀ c ∈ b', Text.isTokenBlank c = true) (lead trail : Mark) (rest : List Char) :
    afterEndRaw? (rawEndTag lead b b' trail ++ rest) = some rest := by
  obtain ⟨s, r, hs, hlead, hbare⟩ := bareTag?_endTag hb hb' lead trail rest
  rw [hs, afterEndRaw?_of_bareTag? (m := trail)]
  rw [hlead]
  exact hbare

/-- Where no end tag stands the lexer goes on by one character. -/
theorem rawEnd?_cons {c : Char} {s text rest : List Char} {lead trail : Mark}
    (hc : afterEndRaw? (c :: s) = none) (h : Lexer.rawEnd? s = some (text, lead, trail, rest)) :
    Lexer.rawEnd? (c :: s) = some (c :: text, lead, trail, rest) := by
  by_cases hopen : ∃ s', c = '\x7b' ∧ s = '%' :: s'
  · obtain ⟨s', rfl, rfl⟩ := hopen
    have hbare : Lexer.bareTag? "endraw".toList (leadMark s').2 = none := by
      cases hb : Lexer.bareTag? "endraw".toList (leadMark s').2 with
      | none => rfl
      | some p =>
        rw [afterEndRaw?_of_bareTag? hb] at hc
        cases hc
    rw [Lexer.rawEnd?] at h
    · split at h
      · next hrest =>
        cases h
        rw [Lexer.rawEnd?]
        dsimp only
        rw [hbare, hrest]
      · cases h
    · rintro _ hfalse
      cases hfalse
  · rw [Lexer.rawEnd?, h]
    rintro s' rfl rfl
    exact hopen ⟨s', rfl, rfl⟩

/-- The lexer ends a raw section where the scanner does, if its end is plain. -/
theorem rawSection?_plain {s section_ rest : List Char} (h : rawSection? s = some (section_, rest))
    (hp : PlainEnd section_) : ∃ text lead trail, Lexer.rawEnd? s = some (text, lead, trail, rest) := by
  induction s generalizing section_ with
  | nil => cases h
  | cons c s ih =>
    have hsource := rawSection?_source h
    obtain ⟨text, lead, b, b', trail, hb, hb', hsection⟩ := hp
    unfold rawSection? at h
    cases ha : afterEndRaw? (c :: s) with
    | some r =>
      rw [ha] at h
      cases h
      obtain ⟨v, hv, hfree⟩ := afterEndRaw?_source ha
      rw [hsection] at hsource
      have htext : text = [] := by
        cases text with
        | nil => rfl
        | cons a text =>
          rw [hv] at hsource
          rw [List.append_cancel_right (List.cons.inj hsource).2] at hfree
          exact absurd (by simp [rawEndTag]) hfree
      rw [htext, List.nil_append] at hsource
      rw [hsource]
      exact ⟨_, _, _, rawEnd?_endTag hb hb' lead trail _⟩
    | none =>
      rw [ha] at h
      simp only [Option.map_eq_some_iff, Prod.exists, Prod.mk.injEq] at h
      obtain ⟨section', r, hs, rfl, rfl⟩ := h
      cases text with
      | nil =>
        rw [hsource, hsection, List.nil_append, afterEndRaw?_endTag hb hb'] at ha
        cases ha
      | cons a text =>
        obtain ⟨text', lead', trail', hend⟩ :=
          ih hs ⟨text, lead, b, b', trail, hb, hb', (List.cons.inj hsection).2⟩
        exact ⟨_, _, _, rawEnd?_cons ha hend⟩

/-- Every section that stands behind a raw tag has a plain end. -/
def RawEndsPlain (ps : List Piece) : Prop :=
  ∀ t section_, [.tag t, .hidden section_] <:+: ps → t.isRaw = true → PlainEnd section_

theorem RawEndsPlain.of_append {ps qs : List Piece} (h : RawEndsPlain (ps ++ qs)) :
    RawEndsPlain ps ∧ RawEndsPlain qs :=
  ⟨fun t s hs => h t s (hs.trans (List.prefix_append ps qs).isInfix),
    fun t s hs => h t s (hs.trans (List.suffix_append ps qs).isInfix)⟩

/-- Chunks that no template begins with: a raw tag with more than its name. -/
def OddRaw : List Chunk → Prop
  | .raw t _ :: _ => t.IsScanned ∧ t.isRaw = true ∧ ¬ t.IsBare
  | _ => False

/-- What the scanner promises of the chunks of a source. -/
structure Chunk.IsSafe (k : Chunk) : Prop where
  raw : ∀ t section_, k = .raw t section_ → t.isRaw = true ∧ PlainEnd section_
  unreserved : ∀ t, .tag t ∈ k.pieces → t.reserved? = none

theorem piece_unreserved {line : Nat} {c : Char} {s rest : List Char} {ps : List Piece}
    (h : piece line c s = .ok (ps, rest)) : ∀ t, .tag t ∈ ps → t.reserved? = none := by
  unfold piece at h
  repeat' split at h
  all_goals cases h
  all_goals
    intro t ht
    simp only [List.mem_cons, List.not_mem_nil, or_false, Piece.tag.injEq, reduceCtorEq] at ht
  all_goals
    rw [ht]
    assumption

/-- One piece of the scanner is one chunk. -/
theorem piece_chunk {line : Nat} {c : Char} {s rest : List Char} {ps : List Piece}
    (h : piece line c s = .ok (ps, rest)) (hp : RawEndsPlain ps) :
    ∃ k : Chunk, ps = k.pieces ∧ k.IsSafe ∧ (k.IsLocal ∨ ∀ ks, OddRaw (k :: ks)) ∧
      ∀ a, k = .char a → opensTag (a :: rest) = false := by
  have hfree := piece_unreserved h
  unfold piece at h
  split at h
  · split at h
    · next comment rest' hsplit =>
      cases h
      exact ⟨.comment comment, rfl, ⟨(by intros; contradiction), hfree⟩, .inl (splitAtMark_local hsplit), (by rintro _ ⟨⟩)⟩
    · cases h
  · next c' s hne =>
    split at h
    · next hkind =>
      cases h
      refine ⟨.char '\x7b', rfl, ⟨(by intros; contradiction), hfree⟩, .inl trivial, ?_⟩
      rintro a ha
      cases ha
      have hbrace : c' ≠ '\x7b' ∧ c' ≠ '%' := by
        constructor <;> rintro rfl <;> cases hkind
      have hhash : c' ≠ '#' := hne
      simp [opensTag, hbrace, hhash]
    · next kind hkind =>
      split at h
      · cases h
      · next t rest' htag =>
        obtain ⟨hscanned, hk, hs⟩ := tag?_isScanned htag
        split at h
        · cases h
        · split at h
          · next hraw =>
            split at h
            · next section_ rest'' hsec =>
              cases h
              have hisRaw : t.isRaw = true := by simpa [Tag.isRaw] using hraw
              have hplain := hp t section_ List.infix_rfl hisRaw
              obtain ⟨text, lead, trail, hend⟩ := rawSection?_plain hsec hplain
              obtain ⟨v, -, hv, hlocal⟩ := rawEnd?_local hend
              rw [rawSection?_source hsec] at hv
              refine ⟨.raw t section_, rfl, ⟨?_, hfree⟩, ?_, (by rintro _ ⟨⟩)⟩
              · rintro _ _ ⟨⟩
                exact ⟨hisRaw, hplain⟩
              · by_cases hbare : t.IsBare
                · refine .inl ⟨hscanned, hbare, fun rest => ?_⟩
                  rw [List.append_cancel_right hv]
                  exact ⟨_, _, _, hlocal rest⟩
                · exact .inr fun _ => ⟨hscanned, hisRaw, hbare⟩
            · cases h
          · next hraw =>
            cases h
            refine ⟨.tag t, rfl, ⟨(by intros; contradiction), hfree⟩, .inl ⟨hscanned, fun hbare => ?_⟩, (by rintro _ ⟨⟩)⟩
            have hisRaw := Tag.IsBare.isRaw hscanned hbare
            simp [Tag.isRaw] at hisRaw hraw
            exact hraw hisRaw.1 hisRaw.2
  · next hhash hbrace =>
    cases h
    refine ⟨.char c, rfl, ⟨(by intros; contradiction), hfree⟩, .inl trivial, ?_⟩
    intro a ha
    cases ha
    unfold opensTag
    split
    · next a r hs =>
      cases hs
      exact absurd rfl (hbrace _ _ rfl)
    · rfl

/-- The scanner finds no reserved name in the tags that it returns. -/
theorem scanFrom_unreserved {line : Nat} {s : List Char} {ps : List Piece} (h : scanFrom line s = .ok ps) :
    ∀ t, .tag t ∈ ps → t.reserved? = none := by
  fun_induction scanFrom line s generalizing ps with
  | case1 =>
    cases h
    exact fun t ht => absurd ht List.not_mem_nil
  | case2 => cases h
  | case3 => cases h
  | case4 line c s qs rest hpiece _ more hmore ih =>
    cases h
    intro t ht
    rcases List.mem_append.1 ht with ht | ht
    · exact piece_unreserved hpiece t ht
    · exact ih hmore t ht

/-- A list of chunks is a cut of its source, or one up to chunks of some kind. -/
inductive CutUntil (stops : List Chunk → Prop) : List Chunk → Prop
  | nil : CutUntil stops []
  | cons {k : Chunk} {ks : List Chunk} (hk : k.IsLocal)
      (hc : ∀ c, k = .char c → opensTag (c :: cutSource ks) = false) (h : CutUntil stops ks) :
      CutUntil stops (k :: ks)
  | stop {ks : List Chunk} (h : stops ks) : CutUntil stops ks

/-- The cut of a source is the list of chunks, or goes with it up to where that stops. -/
theorem CutUntil.unique {stops : List Chunk → Prop} {ks ls : List Chunk} (h : CutUntil stops ks)
    (h' : Cut ls []) (hs : cutSource ks = cutSource ls) :
    ks = ls ∨ ∃ pre ks' ls', ks = pre ++ ks' ∧ ls = pre ++ ls' ∧ stops ks' ∧ Cut ls' [] ∧
      cutSource ks' = cutSource ls' := by
  induction h generalizing ls with
  | nil =>
    cases h' with
    | nil => exact .inl rfl
    | @cons l ls _ hl hc h' =>
      exfalso
      cases l <;> simp [Chunk.source, Chunk.pieces, Piece.source, Tag.source] at hs
  | @cons k ks hk hc h ih =>
    cases h' with
    | nil =>
      exfalso
      cases k <;> simp [Chunk.source, Chunk.pieces, Piece.source, Tag.source] at hs
    | @cons l ls _ hl hlc h' =>
      rw [cutSource_cons, cutSource_cons] at hs
      rw [List.append_nil] at hlc
      obtain ⟨rfl, htail⟩ := hk.unique hl hc hlc hs
      rcases ih h' htail with rfl | ⟨pre, ks', ls', rfl, rfl, hstop, hcut, hs'⟩
      · exact .inl rfl
      · exact .inr ⟨k :: pre, ks', ls', rfl, rfl, hstop, hcut, hs'⟩
  | @stop ks hstop => exact .inr ⟨[], ks, ls, rfl, rfl, hstop, h', hs⟩

/-- The scanner cuts a source, up to a raw tag that is not bare. -/
theorem scanFrom_cut {line : Nat} {s : List Char} {ps : List Piece} (h : scanFrom line s = .ok ps)
    (hp : RawEndsPlain ps) :
    ∃ ks, ps = ks.flatMap Chunk.pieces ∧ CutUntil OddRaw ks ∧ ∀ k ∈ ks, k.IsSafe := by
  fun_induction scanFrom line s generalizing ps with
  | case1 =>
    cases h
    exact ⟨[], rfl, .nil, (by intros; contradiction)⟩
  | case2 => cases h
  | case3 => cases h
  | case4 line c s qs rest hpiece _ more hmore ih =>
    cases h
    obtain ⟨hp, hp'⟩ := hp.of_append
    obtain ⟨k, rfl, hsafe, hk, hopen⟩ := piece_chunk hpiece hp
    obtain ⟨ks, rfl, hks, hall⟩ := ih hmore hp'
    refine ⟨k :: ks, rfl, ?_, ?_⟩
    · rcases hk with hk | hodd
      · refine .cons hk ?_ hks
        have hsource : cutSource ks = rest := by
          have := scanFrom_source hmore
          rw [List.flatMap_assoc] at this
          exact this
        rw [hsource]
        exact hopen
      · exact .stop (hodd ks)
    · intro a ha
      rcases List.mem_cons.1 ha with rfl | ha
      · exact hsafe
      · exact hall a ha

end SecureLayout.Template
