import SecureLayout.Proofs.Template.Expanded
import SecureLayout.Proofs.Template.Statements

/-!
How the lexer reads an expansion. Main statement: if an expansion is a template, then the lexer cuts it into
the chunks that the expansion wrote.
-/

namespace SecureLayout.Template

open Directive

/-- Chunks that no template begins with: a brace in front of a call. -/
def Exposed (ks : List Chunk) : Prop :=
  ∃ name props ls, GoodName name ∧ (∀ p ∈ props, GoodProp p.1 p.2) ∧
    ks = .char '\x7b' :: .tag (callTag name props) :: ls

/-- Plain text that stands where the lexer reads nothing. -/
def Unread (ks : List Chunk) : Prop :=
  ∃ s, ks = chars s ∧ Stuck s

/-- Chunks of a source that no template begins with. -/
def Halting (ks : List Chunk) : Prop :=
  OddRaw ks ∨ Unread ks

/-- Chunks of an expansion that no template begins with. -/
def Barred (ks : List Chunk) : Prop :=
  Halting ks ∨ Exposed ks

theorem tag_not_mem_chars {t : Tag} {s : List Char} : Chunk.tag t ∉ chars s := by
  intro h
  obtain ⟨c, -, hc⟩ := List.mem_map.1 h
  cases hc

theorem Unread.head {k : Chunk} {ks : List Chunk} (h : Unread (k :: ks)) :
    k = .char '\x7b' ∧ ∃ s, ks = chars s := by
  obtain ⟨s, hs, hstuck⟩ := h
  cases s with
  | nil => cases hs
  | cons c s =>
    obtain ⟨rfl, rfl⟩ := List.cons.inj hs
    refine ⟨?_, s, rfl⟩
    by_cases hc : c = '\x7b'
    · rw [hc]
    · have hopens := hstuck.1
      rw [opensTag_eq_false hc] at hopens
      cases hopens

theorem opensTag_append {s : List Char} (u : List Char) (h : opensTag s = true) : opensTag (s ++ u) = true := by
  unfold opensTag at h
  split at h
  · exact h
  · cases h

theorem callTag_isLocal {name : String} {props : List (String × List Char)} (hname : GoodName name)
    (hprops : ∀ p ∈ props, GoodProp p.1 p.2) : (Chunk.tag (callTag name props)).IsLocal := by
  refine ⟨callTag_isScanned hname hprops, ?_⟩
  rintro ⟨hkind, -⟩
  cases hkind

theorem tickTag_isLocal (trail : Mark) : (Chunk.tag (tickTag trail)).IsLocal :=
  ⟨tickTag_isScanned trail, tickTag_not_isBare trail⟩

/-! ### Cuts of expansions -/

theorem CutUntil.mono {stops stops' : List Chunk → Prop} {ks : List Chunk} (himp : ∀ ls, stops ls → stops' ls)
    (h : CutUntil stops ks) : CutUntil stops' ks := by
  induction h with
  | nil => exact .nil
  | cons hk hc _ ih => exact .cons hk hc ih
  | stop h => exact .stop (himp _ h)

/-- Blanks do not bar the chunks behind them. -/
theorem CutUntil.of_blanks {s : List Char} {ks : List Chunk} (hs : Blanks s) (h : CutUntil Halting (chars s ++ ks)) :
    CutUntil Halting ks := by
  induction s with
  | nil => exact h
  | cons c s ih =>
    cases h with
    | cons _ _ h => exact ih (fun x hx => hs x (List.mem_cons_of_mem _ hx)) h
    | stop h =>
      rcases h with hodd | hunread
      · exact hodd.elim
      · obtain ⟨heq, -⟩ := hunread.head
        cases heq
        exact absurd (hs _ List.mem_cons_self) (by decide)

theorem CutUntil.of_tag {t : Tag} {ks : List Chunk} (h : CutUntil Halting (.tag t :: ks)) :
    (Chunk.tag t).IsLocal ∧ CutUntil Halting ks := by
  cases h with
  | cons hk _ h => exact ⟨hk, h⟩
  | stop h =>
    rcases h with hodd | hunread
    · exact hodd.elim
    · cases hunread.head.1

/-- Plain text is its own expansion. -/
theorem Expanded.of_chars {s : List Char} {ks kx : List Chunk} (h : Expanded ks kx) (hs : ks = chars s) :
    kx = chars s := by
  induction h generalizing s with
  | nil => exact hs
  | copy hk h ih =>
    cases s with
    | nil => cases hs
    | cons c s =>
      obtain ⟨rfl, htail⟩ := List.cons.inj hs
      exact congrArg _ (ih htail)
  | loop ht h ih => exact absurd (hs ▸ List.mem_cons_self) tag_not_mem_chars
  | block ht hb hb' hhtml h ih =>
    exact absurd (hs ▸ List.mem_append_right _ List.mem_cons_self) tag_not_mem_chars
  | call ht hb hb' hname hprops h ih =>
    exact absurd (hs ▸ List.mem_append_right _ List.mem_cons_self) tag_not_mem_chars

theorem CutUntil.markup {stops : List Chunk → Prop} {html : List Char} {ks : List Chunk} (hhtml : '\x7b' ∉ html)
    (h : CutUntil stops ks) : CutUntil stops (chars html ++ ks) := by
  induction html with
  | nil => exact h
  | cons c html ih =>
    rw [List.mem_cons, not_or] at hhtml
    refine .cons trivial ?_ (ih hhtml.2)
    rintro a ⟨⟩
    exact opensTag_eq_false (Ne.symm hhtml.1) _

/-- The first character of a source, if that of its expansion may close up to a brace in front of it. -/
theorem Expanded.opens {c : Char} {ks kx : List Chunk} (h : Expanded ks kx)
    (hc : opensTag (c :: cutSource ks) = false) (hx : opensTag (c :: cutSource kx) = true) :
    Exposed (.char c :: kx) := by
  have hbrace : c = '\x7b' := by
    by_contra hne
    rw [opensTag_eq_false hne] at hx
    cases hx
  subst hbrace
  have hhead : ∀ {k : Chunk} {ls ls' : List Chunk}, opensTag ('\x7b' :: cutSource (k :: ls)) = false →
      opensTag ('\x7b' :: cutSource (k :: ls')) = true → False := by
    intro k ls ls' hc hx
    rw [cutSource_cons] at hc hx
    have hne : ∃ a r, k.source = a :: r := by
      cases k with
      | char a => exact ⟨a, [], rfl⟩
      | comment text => exact ⟨_, _, Chunk.source_comment text⟩
      | raw t section_ => exact ⟨_, _, by rw [Chunk.source_raw, Tag.source_append]⟩
      | tag t => exact ⟨_, _, by rw [Chunk.source_tag, Tag.source_eq]⟩
    obtain ⟨a, r, hk⟩ := hne
    rw [hk] at hc hx
    exact absurd (hx.symm.trans hc) nofun
  cases h with
  | nil => cases hx
  | copy hk h => exact (hhead hc hx).elim
  | loop ht h => exact (hhead hc hx).elim
  | @block t b b' html ks kx ht hb hb' hhtml h =>
    obtain ⟨r, hr⟩ : ∃ r, html = '<' :: r := by
      have hhead := hhtml.head
      cases html with
      | nil => cases hhead
      | cons a r =>
        cases hhead
        exact ⟨r, rfl⟩
    rw [hr] at hx
    cases hx
  | call ht hb hb' hname hprops h => exact ⟨_, _, _, hname, hprops, rfl⟩

/-- An expansion is cut as its source is, up to a brace in front of a call. -/
theorem Expanded.cutUntil {ks kx : List Chunk} (h : Expanded ks kx) (hcut : CutUntil Halting ks) :
    CutUntil Barred kx := by
  induction h with
  | nil => exact .nil
  | @copy k ks kx hk h ih =>
    cases hcut with
    | cons hlocal hc hcut =>
      by_cases hopen : ∃ c, k = .char c ∧ opensTag (c :: cutSource kx) = true
      · obtain ⟨c, rfl, hx⟩ := hopen
        exact .stop (.inr (h.opens (hc c rfl) hx))
      · refine .cons hlocal ?_ (ih hcut)
        intro c hkc
        cases hx : opensTag (c :: cutSource kx) with
        | false => rfl
        | true => exact absurd ⟨c, hkc, hx⟩ hopen
    | stop hstop =>
      refine .stop (.inl ?_)
      rcases hstop with hodd | ⟨s, hs, hstuck⟩
      · cases k with
        | raw t section_ => exact .inl hodd
        | _ => exact hodd.elim
      · exact .inr ⟨s, (Expanded.copy hk h).of_chars hs, hstuck⟩
  | loop ht h ih =>
    obtain ⟨hlocal, hcut⟩ := hcut.of_tag
    exact .cons hlocal (by rintro _ ⟨⟩) (.cons (tickTag_isLocal _) (by rintro _ ⟨⟩) (ih hcut))
  | block ht hb hb' hhtml h ih => exact .markup hhtml.brace_free (ih ((hcut.of_blanks hb).of_tag.2.of_blanks hb'))
  | call ht hb hb' hname hprops h ih =>
    exact .cons (callTag_isLocal hname hprops) (by rintro _ ⟨⟩) (ih ((hcut.of_blanks hb).of_tag.2.of_blanks hb'))

/-! ### The line end at the end of a source -/

theorem Blanks.nil : Blanks [] :=
  fun _ h => absurd h List.not_mem_nil

theorem Blanks.append {a b : List Char} (ha : Blanks a) (hb : Blanks b) : Blanks (a ++ b) := by
  intro c hc
  rcases List.mem_append.1 hc with hc | hc
  · exact ha c hc
  · exact hb c hc

/-- What is dropped at the end of a source, its last character first. -/
theorem withoutLastLineEnd_reverse (s : List Char) :
    ∃ b, s.reverse = b ++ (withoutLastLineEnd s).reverse ∧ Blanks b := by
  unfold withoutLastLineEnd
  cases hs : s.reverse with
  | nil => exact ⟨[], rfl, .nil⟩
  | cons c r =>
    by_cases hc : c = '\n'
    · subst hc
      dsimp only
      split
      · next t hline =>
        have hline : r = '\r' :: t := hline
        rw [hline, List.reverse_reverse]
        exact ⟨['\n', '\r'], rfl, List.all_iff_forall_prop.1 (by decide)⟩
      · exact ⟨['\n'], by rw [List.reverse_reverse]; rfl, List.all_iff_forall_prop.1 (by decide)⟩
    · dsimp only
      split
      · next heq =>
        split at heq
        · next hline =>
          cases hline
          exact absurd rfl hc
        · rw [heq, List.reverse_reverse]
          exact ⟨['\r'], rfl, List.all_iff_forall_prop.1 (by decide)⟩
      · split
        · next hline =>
          cases hline
          exact absurd rfl hc
        · exact ⟨[], (List.reverse_reverse _).symm, .nil⟩

theorem Chunk.IsSafe.isSolid {k : Chunk} (h : k.IsSafe) : k.IsSolid := by
  cases k with
  | char c => exact .inl ⟨c, rfl⟩
  | comment text =>
    refine .inr ?_
    rw [Chunk.source_comment]
    exact ⟨'\x7b' :: '#' :: (text ++ ['#']), '\x7d', by simp, by decide⟩
  | raw t section_ =>
    refine .inr ?_
    rw [Chunk.source_raw]
    exact (h.raw t section_ rfl).2.endsSolid.append _
  | tag t =>
    refine .inr ?_
    rw [Chunk.source_tag]
    exact t.endsSolid

theorem Expanded.isSolid {ks kx : List Chunk} (h : Expanded ks kx) (hsafe : ∀ k ∈ ks, k.IsSafe) :
    ∀ k ∈ kx, k.IsSolid := by
  have htag : ∀ t : Tag, (Chunk.tag t).IsSolid := fun t => .inr (by rw [Chunk.source_tag]; exact t.endsSolid)
  have hchars : ∀ {s : List Char} {k : Chunk}, k ∈ chars s → k.IsSolid := by
    intro s k hk
    obtain ⟨c, -, rfl⟩ := List.mem_map.1 hk
    exact .inl ⟨c, rfl⟩
  induction h with
  | nil => exact nofun
  | copy hk h ih =>
    intro k hk
    rcases List.mem_cons.1 hk with rfl | hk
    · exact (hsafe _ List.mem_cons_self).isSolid
    · exact ih (fun k hk => hsafe k (List.mem_cons_of_mem _ hk)) k hk
  | loop ht h ih =>
    intro k hk
    rcases List.mem_cons.1 hk with rfl | hk
    · exact htag _
    · rcases List.mem_cons.1 hk with rfl | hk
      · exact htag _
      · exact ih (fun k hk => hsafe k (List.mem_cons_of_mem _ hk)) k hk
  | @block t b b' html ks kx ht hb hb' hhtml h ih =>
    intro k hk
    rcases List.mem_append.1 hk with hk | hk
    · exact hchars hk
    · exact ih (fun k hk => hsafe k (by simp [hk])) k hk
  | @call t b b' name props ks kx ht hb hb' hname hprops h ih =>
    intro k hk
    rcases List.mem_cons.1 hk with rfl | hk
    · exact htag _
    · exact ih (fun k hk => hsafe k (by simp [hk])) k hk

/-- The line end that the lexer drops is made of characters of their own. -/
theorem split_lineEnd {ks : List Chunk} (h : ∀ k ∈ ks, k.IsSolid) :
    ∃ ls b, ks = ls ++ chars b ∧ Blanks b ∧ cutSource ls = withoutLastLineEnd (cutSource ks) := by
  obtain ⟨b, hb, hblank⟩ := withoutLastLineEnd_reverse (cutSource ks)
  have hheld : heldText ks.reverse = b ++ (withoutLastLineEnd (cutSource ks)).reverse := by
    rw [heldText, List.reverse_reverse, hb]
  obtain ⟨near, hnear, htext⟩ := split_blanks (fun k hk => h k (List.mem_reverse.1 hk)) hblank hheld
  refine ⟨near.reverse, b.reverse, ?_, fun c hc => hblank c (List.mem_reverse.1 hc), ?_⟩
  · rw [chars_reverse, ← List.reverse_append, ← hnear, List.reverse_reverse]
  · rw [← heldText_reverse, htext, List.reverse_reverse]

theorem OddRaw.of_append {ks : List Chunk} {b : List Char} (h : OddRaw (ks ++ chars b)) : OddRaw ks := by
  cases ks with
  | nil => cases b <;> exact h.elim
  | cons k ks => cases k <;> exact h

theorem opensTag_of_append {s b : List Char} (hb : Blanks b) (h : opensTag (s ++ b) = true) : opensTag s = true := by
  cases s with
  | nil =>
    cases b with
    | nil => cases h
    | cons c b =>
      have hc : c ≠ '\x7b' := by
        rintro rfl
        exact absurd (hb _ List.mem_cons_self) (by decide)
      rw [List.nil_append, opensTag_eq_false hc] at h
      cases h
  | cons a s =>
    cases s with
    | nil =>
      unfold opensTag at h
      split at h
      · next c r heq =>
        obtain ⟨rfl, rfl⟩ := List.cons.inj heq
        have hblank := hb _ List.mem_cons_self
        simp only [Bool.or_eq_true, beq_iff_eq] at h
        rcases h with (rfl | rfl) | rfl
        all_goals exact absurd hblank (by decide)
      · cases h
    | cons c s =>
      unfold opensTag at h ⊢
      split at h
      · next heq =>
        cases heq
        exact h
      · cases h

theorem Unread.of_append {ks : List Chunk} {b : List Char} (hb : Blanks b) (h : Unread (ks ++ chars b)) :
    Unread ks := by
  obtain ⟨s, hs, hopens, hlocal⟩ := h
  obtain ⟨u, v, rfl, rfl, hv⟩ := List.append_eq_map_iff.1 hs
  have hvb : v = b := List.map_injective_iff.2 (fun _ _ h => Chunk.char.inj h) hv
  subst hvb
  refine ⟨u, rfl, opensTag_of_append hb hopens, ?_⟩
  intro k rest hk hsource
  exact hlocal k (rest ++ v) hk (by rw [hsource, List.append_assoc])

theorem Halting.of_append {ks : List Chunk} {b : List Char} (hb : Blanks b) (h : Halting (ks ++ chars b)) :
    Halting ks :=
  h.imp OddRaw.of_append (Unread.of_append hb)

theorem Barred.of_append {ks : List Chunk} {b : List Char} (hb : Blanks b) (h : Barred (ks ++ chars b)) :
    Barred ks := by
  rcases h with hhalt | ⟨name, props, ls, hname, hprops, heq⟩
  · exact .inl (hhalt.of_append hb)
  · cases ks with
    | nil =>
      exfalso
      match b with
      | [] => cases heq
      | [c] => cases (List.cons.inj heq).2
      | c :: a :: b => cases (List.cons.inj (List.cons.inj heq).2).1
    | cons k ks =>
      obtain ⟨rfl, hls⟩ := List.cons.inj heq
      change ks ++ chars b = _ at hls
      cases ks with
      | nil =>
        exfalso
        cases b with
        | nil => cases hls
        | cons c b => cases (List.cons.inj hls).1
      | cons l ks =>
        obtain ⟨rfl, -⟩ := List.cons.inj hls
        exact .inr ⟨name, props, ks, hname, hprops, rfl⟩

theorem CutUntil.of_append {stops : List Chunk → Prop} {ks : List Chunk} {b : List Char}
    (hstops : ∀ {ls}, stops (ls ++ chars b) → stops ls) (h : CutUntil stops (ks ++ chars b)) : CutUntil stops ks := by
  induction ks with
  | nil => exact .nil
  | cons k ks ih =>
    cases h with
    | cons hk hc h =>
      refine .cons hk ?_ (ih h)
      intro c hkc
      cases hopen : opensTag (c :: cutSource ks) with
      | false => rfl
      | true =>
        have happend := opensTag_append (cutSource (chars b)) hopen
        rw [List.cons_append, ← cutSource_append] at happend
        exact absurd (happend.symm.trans (hc c hkc)) nofun
    | stop h => exact .stop (hstops h)

/-! ### Templates -/

variable {o : Nat} {ks ls : List Chunk} {ts : List Token} {tags : List SeenTag}

theorem Shaped.of_data {text : String} (h : Shaped false (.data text :: ts)) : Shaped false ts := by
  cases h with
  | data h => exact h

theorem Spelled.shaped (h : Spelled o ks ts tags) {more : List Token} (hs : Shaped false (ts ++ more)) :
    Shaped false more := by
  induction h with
  | nil => exact hs
  | char _ ih => exact ih hs
  | data text _ ih => exact ih hs.of_data
  | comment _ ih => exact ih hs
  | raw text _ ih => exact ih hs.of_data
  | tag hw _ ih =>
    rw [List.cons_append, List.append_assoc, List.cons_append] at hs
    exact ih (hs.of_tag hw.isWord)

theorem Spelled.of_append (h : Spelled o (ls ++ ks) ts tags) (hs : Shaped false ts) :
    ∃ o' ts' tags', Spelled o' ks ts' tags' ∧ Shaped false ts' := by
  induction ls generalizing o ts tags with
  | nil => exact ⟨o, ts, tags, h, hs⟩
  | cons l ls ih =>
    cases h with
    | char h => exact ih h hs
    | data text h => exact ih h hs.of_data
    | comment h => exact ih h hs
    | raw text h => exact ih h hs.of_data
    | tag hw h => exact ih h (hs.of_tag hw.isWord)

/-- What is compiled is read to its end, and the tokens have the shape of a template. -/
theorem parse_lexed {space : BlockSpace} {name : String} {x : List Char} {b : List Stmt}
    (h : parse space name x = .ok b) : ∃ ls ts, Cut ls [] ∧ withoutLastLineEnd x = cutSource ls ∧
      Spelled 0 ls ts (tokenize space x).tags ∧ (tokenize space x).tokens.map Spanned.token = ts ∧ Shaped false ts ∧
      (Woven .text ts → ∀ a ∈ b, a.Metered) := by
  unfold parse at h
  dsimp only at h
  split at h
  · next body s hparse =>
    cases h
    obtain ⟨hfault, hshaped, hmetered⟩ := Parser.template_sound hparse
    obtain ⟨ls, ts, tags, r, more, open_, hcut, hx, hspelled, htokens, htags, hhalts⟩ := tokenize_outcome space x
    change Shaped false ((tokenize space x).tokens.map Spanned.token) at hshaped
    change Woven .text ((tokenize space x).tokens.map Spanned.token) → _ at hmetered
    rw [htokens] at hshaped hmetered
    generalize htail : (tokenize space x).fault = fault at hhalts
    cases hhalts with
    | done =>
      rw [List.append_nil] at hx htokens hshaped hmetered
      rw [List.reverse_nil, List.nil_append, List.append_nil] at htags
      exact ⟨ls, ts, hcut, hx, htags ▸ hspelled, htokens, hshaped, hmetered⟩
    | stuck hs hts htags hopen =>
      rcases hts with hts | hts
      · exact absurd (htail.symm.trans hfault) hts
      · exact absurd (hspelled.shaped hshaped) hts
  · cases h

theorem Tag.Words.keyword_iff {t : Tag} {ws : List Token} (hscanned : t.IsScanned) (hw : t.Words ws) {c : Char}
    (hc : Text.isNameStart c = true) (r : List Char) :
    t.keyword = c :: r ↔ ∃ ws', ws = .name (String.ofList (c :: r)) :: ws' := by
  rw [Tag.keyword_eq]
  exact (hw []).leadingName_iff (hscanned.body []) hc r

/-- Where a tag opens, a cut goes on with a tag. -/
theorem Cut.of_opens (kind : TagKind) {s : List Char} (hcut : Cut ls [])
    (hs : '\x7b' :: kind.opens :: s = cutSource ls) :
    ∃ t ls', (ls = .tag t :: ls' ∨ ∃ section_, ls = .raw t section_ :: ls') := by
  cases hcut with
  | nil => cases hs
  | @cons k ls _ hk hc h =>
    cases k with
    | char c =>
      exfalso
      obtain ⟨rfl, htail⟩ := List.cons.inj hs
      have hopen := hc _ rfl
      change opensTag ('\x7b' :: (cutSource ls ++ [])) = false at hopen
      rw [List.append_nil] at hopen
      change kind.opens :: s = cutSource ls at htail
      rw [← htail] at hopen
      cases kind <;> cases hopen
    | comment text =>
      exfalso
      rw [cutSource_cons, Chunk.source_comment] at hs
      have hopens := (List.cons.inj (List.cons.inj hs).2).1
      cases kind <;> exact absurd hopens (by decide)
    | raw t section_ => exact ⟨t, ls, .inr ⟨section_, rfl⟩⟩
    | tag t => exact ⟨t, ls, .inl rfl⟩

theorem OddRaw.not_shaped (h : OddRaw ks) (hcut : Cut ls []) (hspelled : Spelled o ls ts tags)
    (hshaped : Shaped false ts) : cutSource ks ≠ cutSource ls := by
  intro hs
  obtain ⟨t, section_, ks, rfl⟩ : ∃ t section_ ks', ks = .raw t section_ :: ks' := by
    cases ks with
    | nil => exact h.elim
    | cons k ks =>
      cases k with
      | raw t section_ => exact ⟨t, section_, ks, rfl⟩
      | _ => exact h.elim
  obtain ⟨hscanned, hraw, hbare⟩ := h
  rw [cutSource_cons, Chunk.source_raw, List.append_assoc] at hs
  obtain ⟨t', ls', rfl | ⟨section', rfl⟩⟩ := hcut.of_opens t.kind (by rw [← hs, Tag.source_append])
  · cases hcut with
    | cons hk _ _ =>
      rw [cutSource_cons, Chunk.source_tag] at hs
      obtain ⟨rfl, -⟩ := hscanned.unique hk.1 hs
      cases hspelled with
      | @tag _ _ ws _ ts _ hw _ =>
        obtain ⟨hkind, hkey⟩ := (Bool.and_eq_true _ _).mp hraw
        obtain ⟨ws', rfl⟩ := (hw.keyword_iff hscanned (c := 'r') (by decide) ['a', 'w']).1 (eq_of_beq hkey)
        rw [eq_of_beq hkind] at hshaped
        cases hshaped with
        | block hword _ => exact absurd hword (by decide)
  · cases hcut with
    | cons hk _ _ =>
      rw [cutSource_cons, Chunk.source_raw, List.append_assoc] at hs
      obtain ⟨rfl, -⟩ := hscanned.unique hk.1 hs
      exact hbare hk.2.1

theorem Exposed.not_shaped (h : Exposed ks) (hcut : Cut ls []) (hspelled : Spelled o ls ts tags)
    (hshaped : Shaped false ts) : cutSource ks ≠ cutSource ls := by
  intro hs
  obtain ⟨name, props, ks, hname, hprops, rfl⟩ := h
  -- The lexer reads the tag from the brace on.
  have hsource : cutSource (.char '\x7b' :: .tag (callTag name props) :: ks) =
      '\x7b' :: '\x7b' :: ('\x7b' :: ((callTag name props).inner ++ cutSource ks)) := by
    rw [cutSource_cons, cutSource_cons, Chunk.source_char, Chunk.source_tag, Tag.source_append]
    rfl
  rw [hsource] at hs
  obtain ⟨t, ls', rfl | ⟨section_, rfl⟩⟩ := hcut.of_opens .expr hs
  · cases hcut with
    | cons hk _ _ =>
      rw [cutSource_cons, Chunk.source_tag] at hs
      obtain ⟨hkind, htail⟩ := kind_of_opens .expr hs
      have hlead := hk.1.lead (cutSource ls')
      rw [← htail] at hlead
      obtain ⟨-, hinner⟩ := Prod.mk.inj hlead
      cases hspelled with
      | tag hw _ =>
        have hcoded := hw (cutSource ls')
        rw [← hinner, hkind] at hcoded
        rw [hkind] at hshaped
        cases hshaped with
        | expr hmap _ => exact brace_call_not_mapFollows hname hprops hcoded _ hmap
  · cases hcut with
    | cons hk _ _ =>
      rw [cutSource_cons, Chunk.source_raw, List.append_assoc] at hs
      obtain ⟨hkind, -⟩ := kind_of_opens .expr hs
      rw [hk.2.1.1] at hkind
      cases hkind

theorem Unread.not_spelled (h : Unread ks) (hcut : Cut ls []) (hspelled : Spelled o ls ts tags) :
    cutSource ks ≠ cutSource ls := by
  intro hs
  obtain ⟨s, rfl, hopens, hlocal⟩ := h
  rw [cutSource_chars] at hs
  subst hs
  cases hcut with
  | nil => cases hopens
  | @cons k ls _ hk hc _ =>
    rcases hlocal k (cutSource ls) hk rfl with ⟨c, rfl⟩ | ⟨t, rfl, hnone⟩
    · have hclosed := hc c rfl
      rw [List.append_nil] at hclosed
      exact absurd (hopens.symm.trans hclosed) Bool.noConfusion
    · cases hspelled with
      | tag hw _ => exact hnone ⟨_, hw⟩

/-- A template is cut as its chunks say, if they are a cut up to chunks that are barred. -/
theorem CutUntil.lexed (h : CutUntil Barred ks) (hcut : Cut ls []) (hs : cutSource ks = cutSource ls)
    (hspelled : Spelled o ls ts tags) (hshaped : Shaped false ts) : ks = ls := by
  rcases h.unique hcut hs with heq | ⟨pre, ks', ls', rfl, rfl, hbarred, hcut', hs'⟩
  · exact heq
  · obtain ⟨o', ts', tags', hspelled', hshaped'⟩ := hspelled.of_append hshaped
    rcases hbarred with (hodd | hunread) | hexposed
    · exact absurd hs' (hodd.not_shaped hcut' hspelled' hshaped')
    · exact absurd hs' (hunread.not_spelled hcut' hspelled')
    · exact absurd hs' (hexposed.not_shaped hcut' hspelled' hshaped')

theorem Cut.isLocal {r : List Char} (h : Cut ls r) : ∀ k ∈ ls, k.IsLocal := by
  induction h with
  | nil => exact nofun
  | cons hk hc h ih =>
    intro k hmem
    rcases List.mem_cons.1 hmem with rfl | hmem
    · exact hk
    · exact ih k hmem

theorem CutUntil.cut (h : CutUntil OddRaw ks) (hraw : ∀ t section_, .raw t section_ ∈ ks → t.IsBare) :
    Cut ks [] := by
  induction h with
  | nil => exact .nil []
  | cons hk hc h ih =>
    refine .cons hk ?_ (ih fun t s hmem => hraw t s (List.mem_cons_of_mem _ hmem))
    rw [List.append_nil]
    exact hc
  | @stop ks hodd =>
    cases ks with
    | nil => exact hodd.elim
    | cons k ks =>
      cases k with
      | raw t section_ => exact absurd (hraw t section_ List.mem_cons_self) hodd.2.2
      | _ => exact hodd.elim

/-- The expansion keeps all chunks but plain text and directives. -/
theorem Expanded.mem {kx : List Chunk} {k : Chunk} (h : Expanded ks kx) (hchar : ∀ c, k ≠ .char c)
    (hrole : ∀ t, k = .tag t → t.role ≠ .directive) (hmem : k ∈ ks) : k ∈ kx := by
  have hchars : ∀ {s : List Char}, k ∉ chars s := by
    intro s hs
    obtain ⟨c, -, hc⟩ := List.mem_map.1 hs
    exact hchar c hc.symm
  induction h with
  | nil => exact hmem
  | copy hk h ih =>
    rcases List.mem_cons.1 hmem with rfl | hmem
    · exact List.mem_cons_self
    · exact List.mem_cons_of_mem _ (ih hmem)
  | loop ht h ih =>
    rcases List.mem_cons.1 hmem with rfl | hmem
    · exact List.mem_cons_self
    · exact List.mem_cons_of_mem _ (List.mem_cons_of_mem _ (ih hmem))
  | block ht hb hb' hhtml h ih =>
    rcases List.mem_append.1 hmem with hmem | hmem
    · exact absurd hmem hchars
    · rcases List.mem_cons.1 hmem with heq | hmem
      · exact absurd ht (hrole _ heq)
      · rcases List.mem_append.1 hmem with hmem | hmem
        · exact absurd hmem hchars
        · exact List.mem_append_right _ (ih hmem)
  | call ht hb hb' hname hprops h ih =>
    rcases List.mem_append.1 hmem with hmem | hmem
    · exact absurd hmem hchars
    · rcases List.mem_cons.1 hmem with heq | hmem
      · exact absurd ht (hrole _ heq)
      · rcases List.mem_append.1 hmem with hmem | hmem
        · exact absurd hmem hchars
        · exact List.mem_cons_of_mem _ (ih hmem)

theorem Spelled.append_chars (h : Spelled o ks ts tags) (s : List Char) : Spelled o (ks ++ chars s) ts tags := by
  induction h with
  | nil o =>
    induction s generalizing o with
    | nil => exact .nil o
    | cons c s ih => exact .char (ih _)
  | char _ ih => exact .char ih
  | data text _ ih => exact .data text ih
  | comment _ ih => exact .comment ih
  | raw text _ ih => exact .raw text ih
  | tag hw _ ih => exact .tag hw ih

/-- If an expansion is a template, then its tokens are those of the chunks that it wrote, and raw sections are the
same for the lexer. -/
theorem Expanded.lexed {kx : List Chunk} {space : BlockSpace} {name : String} {b : List Stmt}
    (h : Expanded ks kx) (hcut : CutUntil Halting ks) (hsafe : ∀ k ∈ ks, k.IsSafe)
    (hparse : parse space name (cutSource kx) = .ok b) :
    (∀ t section_, .raw t section_ ∈ ks → t.IsBare) ∧ ∃ ts tags, Spelled 0 kx ts tags ∧ Shaped false ts ∧
      (tokenize space (cutSource kx)).tokens.map Spanned.token = ts ∧ (Woven .text ts → ∀ a ∈ b, a.Metered) := by
  obtain ⟨ls, ts, hls, hsource, hspelled, htokens, hshaped, hmetered⟩ := parse_lexed hparse
  obtain ⟨ky, s, rfl, hs, hky⟩ := split_lineEnd (h.isSolid hsafe)
  have hbarred : CutUntil Barred ky := (h.cutUntil hcut).of_append (Barred.of_append hs)
  obtain rfl := hbarred.lexed hls (hky.trans hsource) hspelled hshaped
  refine ⟨?_, ts, _, hspelled.append_chars s, hshaped, htokens, hmetered⟩
  intro t section_ hmem
  have hlocal : (Chunk.raw t section_).IsLocal := by
    rcases List.mem_append.1 (h.mem (k := .raw t section_) nofun nofun hmem) with hmem | hmem
    · exact hls.isLocal _ hmem
    · obtain ⟨c, -, hc⟩ := List.mem_map.1 hmem
      cases hc
  exact hlocal.2.1

end SecureLayout.Template
