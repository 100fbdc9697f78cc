import SecureLayout.Proofs.Template.Coded

/-!
Delimited stretches of a source: tags, comments, and raw sections with the tag that ends them. Main
statement: each is read from its own characters, whatever follows.
-/

namespace SecureLayout.Template

/-! ### Beginnings -/

theorem stripStart_append (p r : List Char) : Text.stripStart p (p ++ r) = some r := by
  induction p with
  | nil => rfl
  | cons a p ih =>
    rw [List.cons_append, Text.stripStart, if_pos rfl]
    exact ih

theorem stripStart_iff {p s r : List Char} : Text.stripStart p s = some r ↔ s = p ++ r :=
  ⟨Text.stripStart_eq_some, fun h => h ▸ stripStart_append p r⟩

theorem stripStart_local {p v : List Char} (y y' : List Char) (hv : p.length ≤ v.length)
    (h : Text.stripStart p (v ++ y) = none) : Text.stripStart p (v ++ y') = none := by
  cases hs : Text.stripStart p (v ++ y') with
  | none => rfl
  | some r =>
    have hpre : p <+: v :=
      List.prefix_of_prefix_length_le ⟨r, (stripStart_iff.1 hs).symm⟩ (List.prefix_append v y') hv
    obtain ⟨w, rfl⟩ := hpre
    rw [List.append_assoc, stripStart_append] at h
    cases h

theorem leadMark_of_source {m : Mark} {s : List Char}
    (h : m = .none → ∀ c r, s = c :: r → c ≠ '-' ∧ c ≠ '+') : leadMark (m.source ++ s) = (m, s) := by
  cases m with
  | minus => rfl
  | plus => rfl
  | none =>
    change leadMark s = _
    unfold leadMark
    split
    · exact absurd rfl (h rfl _ _ rfl).1
    · exact absurd rfl (h rfl _ _ rfl).2
    · rfl

theorem leadMark_eq {m : Mark} {s r : List Char} (h : leadMark s = (m, r)) :
    s = m.source ++ r ∧ (m = .none → ∀ c r', r = c :: r' → c ≠ '-' ∧ c ≠ '+') := by
  have hs := leadMark_source s
  rw [h] at hs
  refine ⟨hs.symm, ?_⟩
  rintro rfl c r' rfl
  cases hs
  constructor <;> rintro rfl <;> cases h

/-- A sign is told from one character. -/
theorem leadMark_local {m : Mark} {u r : List Char} (hu : u ≠ []) (h : leadMark (m.source ++ (u ++ r)) = (m, u ++ r))
    (r' : List Char) : leadMark (m.source ++ (u ++ r')) = (m, u ++ r') := by
  refine leadMark_of_source fun hm c s hs => ?_
  cases u with
  | nil => exact absurd rfl hu
  | cons a u =>
    cases hs
    exact (leadMark_eq h).2 hm _ _ rfl

/-! ### Tags -/

theorem body?_local {kind : TagKind} {i : Inside} {d : Nat} {s b rest : List Char} {mark : Mark}
    (h : body? kind i d s = some (b, mark, rest)) (rest' : List Char) :
    body? kind i d (b ++ (mark.source ++ kind.closes :: '\x7d' :: rest')) = some (b, mark, rest') := by
  induction s generalizing i d b with
  | nil => cases i <;> cases h
  | cons c s ih =>
    cases i with
    | string q e =>
      simp only [body?, Option.map_eq_some_iff, Prod.exists, Prod.mk.injEq] at h
      obtain ⟨b', m, r, hb, rfl, rfl, rfl⟩ := h
      rw [List.cons_append, body?, ih hb]
      rfl
    | code =>
      have hsource := body?_source h
      unfold body? at h
      split at h
      · next mark' rest'' hc =>
        cases h
        split at hc
        · next hd =>
          subst hd
          rw [List.nil_append]
          generalize hs' : mark.source ++ kind.closes :: '\x7d' :: rest' = s'
          cases s' with
          | nil => cases mark <;> cases hs'
          | cons a s' => rw [body?, if_pos rfl, ← hs', closing?_of_source]
        · cases hc
      · next hopen =>
        simp only [Option.map_eq_some_iff, Prod.exists, Prod.mk.injEq] at h
        obtain ⟨b', m, r, hb, rfl, rfl, rfl⟩ := h
        rw [List.cons_append, body?_code, ih hb]
        · rfl
        · intro hd
          rw [if_pos hd] at hopen
          have hopen : closing? kind (c :: s) = none := hopen
          rw [hsource, List.cons_append] at hopen
          have hlen : 3 ≤ (c :: (b' ++ (m.source ++ [kind.closes, '\x7d']))).length := by simp; omega
          have := closing?_local r rest' hlen (by simpa using hopen)
          simpa using this

namespace Tag

/-- The text of a tag behind its opening delimiter and sign. -/
def inner (t : Tag) : List Char :=
  t.body ++ (t.trail.source ++ [t.kind.closes, '\x7d'])

theorem source_eq (t : Tag) : t.source = '\x7b' :: t.kind.opens :: (t.lead.source ++ t.inner) := rfl

theorem inner_ne_nil (t : Tag) : t.inner ≠ [] := by
  simp [inner]

/-- The scanner reads this tag from its text. -/
structure IsScanned (t : Tag) : Prop where
  lead : ∀ rest, leadMark (t.lead.source ++ (t.inner ++ rest)) = (t.lead, t.inner ++ rest)
  body : ∀ rest, body? t.kind .code 0 (t.inner ++ rest) = some (t.body, t.trail, rest)

theorem inner_append (t : Tag) (rest : List Char) :
    t.inner ++ rest = t.body ++ (t.trail.source ++ t.kind.closes :: '\x7d' :: rest) := by
  simp [inner]

end Tag

/-- What the scanner reads from a tag does not depend on what follows. -/
theorem tag?_isScanned {kind : TagKind} {s rest : List Char} {t : Tag} (h : tag? kind s = some (t, rest)) :
    t.IsScanned ∧ t.kind = kind ∧ s = t.lead.source ++ (t.inner ++ rest) := by
  unfold tag? at h
  rcases hl : leadMark s with ⟨lead, s'⟩
  rw [hl] at h
  simp only [Option.map_eq_some_iff, Prod.exists, Prod.mk.injEq] at h
  obtain ⟨b, m, r, hb, rfl, rfl⟩ := h
  have hs' := body?_source hb
  have hsource := (leadMark_eq hl).1
  have hinner : ∀ x : List Char, (Tag.mk kind lead b m).inner ++ x =
      b ++ (m.source ++ kind.closes :: '\x7d' :: x) := Tag.inner_append _
  refine ⟨⟨fun rest' => ?_, fun rest' => ?_⟩, rfl, ?_⟩
  · refine leadMark_local (Tag.inner_ne_nil _) (r := r) ?_ rest'
    rw [hinner, ← hs', ← hsource]
    exact hl
  · rw [hinner]
    exact body?_local hb rest'
  · rw [hinner, ← hs', hsource]

theorem Tag.IsScanned.tag? {t : Tag} (h : t.IsScanned) (rest : List Char) :
    tag? t.kind (t.lead.source ++ (t.inner ++ rest)) = some (t, rest) := by
  unfold Template.tag?
  rw [h.lead rest]
  dsimp only
  rw [h.body rest]
  rfl

/-! ### Comments -/

theorem splitAtMark_local {m s l r : List Char} (h : Text.splitAtMark m s = some (l, r)) (r' : List Char) :
    Text.splitAtMark m (l ++ (m ++ r')) = some (l, r') := by
  induction s generalizing l with
  | nil =>
    simp only [Text.splitAtMark, Option.map_eq_some_iff, Prod.mk.injEq] at h
    obtain ⟨x, hx, rfl, rfl⟩ := h
    have hm : m = [] := by
      have := stripStart_iff.1 hx
      simp_all
    subst hm
    cases r' <;> rfl
  | cons c s ih =>
    have hsource := splitAtMark_source h
    unfold Text.splitAtMark at h
    split at h
    · next x hx =>
      cases h
      rw [List.nil_append]
      have hstrip := stripStart_append m r'
      generalize m ++ r' = s' at hstrip
      cases s' with
      | nil => rw [Text.splitAtMark, hstrip]; rfl
      | cons a s' => rw [Text.splitAtMark, hstrip]
    · next hnone =>
      simp only [Option.map_eq_some_iff, Prod.exists, Prod.mk.injEq] at h
      obtain ⟨l', x, hl, rfl, rfl⟩ := h
      have hstrip : Text.stripStart m (c :: (l' ++ (m ++ r'))) = none := by
        rw [hsource] at hnone
        have hv : m.length ≤ (c :: (l' ++ m)).length := by simp; omega
        have := stripStart_local x r' hv (by simpa using hnone)
        simpa using this
      rw [List.cons_append, Text.splitAtMark, hstrip, ih hl]
      rfl

/-! ### Raw sections -/

theorem dropWhile_split {p : Char → Bool} {s r : List Char} (h : s.dropWhile p = r) :
    ∃ b, (∀ c ∈ b, p c = true) ∧ s = b ++ r :=
  ⟨s.takeWhile p, fun _ hc => List.mem_takeWhile_imp hc, by rw [← h, List.takeWhile_append_dropWhile]⟩

theorem dropWhile_of_split {p : Char → Bool} {b : List Char} (hb : ∀ c ∈ b, p c = true) {c : Char}
    (hc : p c = false) (r : List Char) : (b ++ c :: r).dropWhile p = c :: r := by
  rw [List.dropWhile_append_of_pos hb, List.dropWhile_cons_of_neg (by simp [hc])]

theorem mark_closes_head (m : Mark) (rest : List Char) : ∃ c r,
    m.source ++ '%' :: '\x7d' :: rest = c :: r ∧ c ∈ ['-', '+', '%'] := by
  cases m <;> exact ⟨_, _, rfl, by decide⟩

/-- A word that no blank begins. -/
def isSolid (name : List Char) : Prop :=
  ∃ c r, name = c :: r ∧ Text.isTokenBlank c = false

/-- A bare tag: token blanks, the name, token blanks, a sign, and the delimiter of a block. -/
theorem bareTag?_iff {name s rest : List Char} {m : Mark} (hname : isSolid name) :
    Lexer.bareTag? name s = some (m, rest) ↔
      ∃ b b', (∀ c ∈ b, Text.isTokenBlank c = true) ∧ (∀ c ∈ b', Text.isTokenBlank c = true) ∧
        s = b ++ (name ++ (b' ++ (m.source ++ '%' :: '\x7d' :: rest))) := by
  constructor
  · intro h
    simp only [Lexer.bareTag?, Option.bind_eq_bind, Option.pure_def, Option.bind_eq_some_iff] at h
    obtain ⟨s1, h1, s2, h2, h3⟩ := h
    cases h3
    obtain ⟨b, hb, hs⟩ := dropWhile_split (stripStart_iff.1 h1)
    obtain ⟨b', hb', hs'⟩ := dropWhile_split (rfl : s1.dropWhile Text.isTokenBlank = _)
    refine ⟨b, b', hb, hb', ?_⟩
    have hmark := leadMark_source (s1.dropWhile Text.isTokenBlank)
    have h2 := stripStart_iff.1 h2
    rw [hs]
    conv_lhs => rw [hs', ← hmark, h2]
    simp
  · rintro ⟨b, b', hb, hb', rfl⟩
    have hskip : (b ++ (name ++ (b' ++ (m.source ++ '%' :: '\x7d' :: rest)))).dropWhile
        Text.isTokenBlank = name ++ (b' ++ (m.source ++ '%' :: '\x7d' :: rest)) := by
      obtain ⟨a, r, rfl, ha⟩ := hname
      exact dropWhile_of_split hb ha _
    have hend : (b' ++ (m.source ++ '%' :: '\x7d' :: rest)).dropWhile Text.isTokenBlank =
        m.source ++ '%' :: '\x7d' :: rest := by
      obtain ⟨c, r, hc, hmem⟩ := mark_closes_head m rest
      have hall : ∀ x ∈ ['-', '+', '%'], Text.isTokenBlank x = false := List.all_iff_forall_prop.1 (by decide)
      rw [hc, dropWhile_of_split hb' (hall c hmem)]
    have hmark : leadMark (m.source ++ '%' :: '\x7d' :: rest) = (m, '%' :: '\x7d' :: rest) := by
      cases m <;> rfl
    simp only [Lexer.bareTag?, hskip, stripStart_append, Option.bind_eq_bind, Option.bind_some, hend, hmark]
    rfl

theorem bareTag?_local {name s rest : List Char} {m : Mark} (hname : isSolid name)
    (hbrace : '\x7b' ∉ name) (h : Lexer.bareTag? name s = some (m, rest)) :
    ∃ v, v ≠ [] ∧ '\x7b' ∉ v ∧ s = v ++ rest ∧
      ∀ rest', Lexer.bareTag? name (v ++ rest') = some (m, rest') := by
  obtain ⟨b, b', hb, hb', rfl⟩ := (bareTag?_iff hname).1 h
  have hblank : Text.isTokenBlank '\x7b' = false := by decide
  have hmark : '\x7b' ∉ m.source := by cases m <;> decide
  refine ⟨b ++ (name ++ (b' ++ (m.source ++ ['%', '\x7d']))), by simp, ?_, by simp, fun rest' => ?_⟩
  · simp only [List.mem_append, not_or]
    refine ⟨fun hmem => ?_, hbrace, fun hmem => ?_, hmark, by decide⟩
    · rw [hb _ hmem] at hblank
      cases hblank
    · rw [hb' _ hmem] at hblank
      cases hblank
  · exact (bareTag?_iff hname).2 ⟨b, b', hb, hb', by simp⟩

theorem endraw_isSolid : isSolid "endraw".toList := ⟨'e', "ndraw".toList, rfl, by decide⟩

/-- A text without braces stands in front of the first brace. -/
theorem prefix_of_brace_free {u v x y : List Char} {c : Char} (h : u ++ x = v ++ y) (hu : c ∉ u)
    (hv : c ∈ v) : ∃ w, v = u ++ w := by
  rcases List.append_eq_append_iff.1 h with ⟨w, hw, -⟩ | ⟨w, hw, -⟩
  · exact ⟨w, hw⟩
  · rw [hw] at hu
    exact absurd (List.mem_append_left _ hv) hu

/-- The end of a raw section is found from the section alone. -/
theorem rawEnd?_local {s text rest : List Char} {lead trail : Mark}
    (h : Lexer.rawEnd? s = some (text, lead, trail, rest)) :
    ∃ v, '\x7b' ∈ v ∧ s = v ++ rest ∧ ∀ rest', Lexer.rawEnd? (v ++ rest') = some (text, lead, trail, rest') := by
  have hname : '\x7b' ∉ "endraw".toList := by decide
  have hsolid := endraw_isSolid
  revert hname hsolid
  generalize hword : "endraw".toList = word
  intro hname hsolid
  fun_induction Lexer.rawEnd? s generalizing text lead trail rest with
  | case1 => cases h
  | case2 s lead' inner hlead trail' rest'' hbare =>
    cases h
    rw [hword] at hbare
    obtain ⟨w, hw, -, rfl, hlocal⟩ := bareTag?_local hsolid hname hbare
    refine ⟨'\x7b' :: '%' :: (lead'.source ++ w), by simp, ?_, fun rest' => ?_⟩
    · rw [(leadMark_eq hlead).1]
      simp
    · have hlead' := leadMark_local hw (by rw [← (leadMark_eq hlead).1]; exact hlead) rest'
      rw [List.cons_append, List.cons_append, List.append_assoc, Lexer.rawEnd?, hlead']
      simp [hword, hlocal]
  | case3 s lead' inner hlead hbare text' lead'' trail' rest'' hend ih =>
    cases h
    rw [hword] at hbare
    obtain ⟨v, hv, rfl, hlocal⟩ := ih hend
    refine ⟨'\x7b' :: '%' :: v, by simp, rfl, fun rest' => ?_⟩
    have hmiss : Lexer.bareTag? word (leadMark (v ++ rest')).2 = none := by
      cases hb : Lexer.bareTag? word (leadMark (v ++ rest')).2 with
      | none => rfl
      | some p =>
        exfalso
        obtain ⟨w, hw, hbrace, hs, hwlocal⟩ := bareTag?_local hsolid hname hb
        rcases hmark : leadMark (v ++ rest') with ⟨mark, r⟩
        rw [hmark] at hs
        obtain ⟨hsource, hsign⟩ := leadMark_eq hmark
        have hfree : '\x7b' ∉ mark.source ++ w := by
          rw [List.mem_append, not_or]
          exact ⟨by cases mark <;> decide, hbrace⟩
        have hsplit : (mark.source ++ w) ++ p.2 = v ++ rest' := by
          rw [hsource, List.append_assoc, ← hs]
        obtain ⟨v', rfl⟩ := prefix_of_brace_free hsplit hfree hv
        have hlead' := leadMark_local hw (r := p.2) (by rw [← hs, ← hsource]; exact hmark) (v' ++ rest'')
        rw [List.append_assoc, List.append_assoc, hlead'] at hlead
        cases hlead
        rw [hwlocal] at hbare
        cases hbare
    rw [List.cons_append, List.cons_append, Lexer.rawEnd?]
    simp [hword, hmiss, hlocal]
  | case4 => cases h
  | case5 c s hne text' lead' trail' rest'' hend ih =>
    cases h
    obtain ⟨v, hv, rfl, hlocal⟩ := ih hend
    refine ⟨c :: v, List.mem_cons_of_mem _ hv, rfl, fun rest' => ?_⟩
    cases v with
    | nil => cases hv
    | cons a v =>
      rw [List.cons_append, Lexer.rawEnd?, hlocal]
      rintro s' rfl hs'
      cases hs'
      exact hne _ rfl rfl
  | case6 => cases h

end SecureLayout.Template
