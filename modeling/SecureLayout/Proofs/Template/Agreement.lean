import SecureLayout.Proofs.Template.Reread

/-!
The tokens of an expansion, and where the scanner and the lexer find tags in a source. Main statements: in the tokens of
an expansion that is a template every loop body begins with a tick, and layouts name nothing that is reserved; if the
expansion of a source is a template, then both find the same tags, up to a directive that the lexer cannot read.
-/

namespace SecureLayout.Template

open Directive

variable {o : Nat} {ks kx : List Chunk} {ts ws : List Token} {tags : List SeenTag} {t : Tag}

/-- What is written in a tag says how it is read. -/
theorem Coded.unique {kind : TagKind} {d : Nat} {s r r' : List Char} {ws' : List Token} {m m' : Mark}
    (h : Coded kind d s ws m r) (h' : Coded kind d s ws' m' r') : ws = ws' := by
  induction h generalizing ws' with
  | close hc => exact (h'.of_closing hc).1.symm
  | blank hc _ ih => exact ih (h'.of_blank hc)
  | word hopen hw _ ih =>
    obtain ⟨us, rfl, htail⟩ := h'.of_word hopen hw
    rw [ih htail]

theorem Tag.Words.unique {ws' : List Token} (h : t.Words ws) (h' : t.Words ws') : ws = ws' :=
  (h []).unique (h' [])

/-- The words of a tag that the scanner let pass are open to layouts. -/
theorem Tag.Words.isOpen (h : t.Words ws) (hscanned : t.IsScanned) (hfree : t.reserved? = none) :
    ∀ w ∈ ws, w.IsOpen := by
  intro w hw
  refine ⟨h.isWord w hw, ?_⟩
  rintro n rfl
  exact (h []).unreserved (hscanned.body []) (.outside hfree) n hw

/-! ### Single tags -/

theorem Woven.of_chars {s : List Char} (h : Spelled o (chars s ++ kx) ts tags) :
    ∃ o' ts', Spelled o' kx ts' tags ∧ (Woven .text ts' → Woven .text ts) := by
  induction s generalizing o ts with
  | nil => exact ⟨o, ts, h, id⟩
  | cons c s ih =>
    cases h with
    | char h => exact ih h
    | data text h =>
      obtain ⟨o', ts', h', hw⟩ := ih h
      exact ⟨o', ts', h', fun hts => .data (hw hts)⟩

theorem Woven.expression (hkind : t.kind = .expr) (hw : ∀ w ∈ ws, w.IsOpen) (h : Woven .text ts) :
    Woven .text (t.kind.startToken :: (ws ++ Lexer.endToken t.kind :: ts)) := by
  rw [hkind]
  exact .expr (Woven.append_words rfl hw (.exprEnd h))

theorem Tag.role_loop (h : t.role = .loop) : t.kind = .block ∧ t.keyword = "for".toList := by
  unfold Tag.role at h
  split at h
  · cases h
  · next hkind =>
    split_ifs at h with hfor
    exact ⟨hkind, hfor⟩

/-- A tag that the expansion copies opens no loop. -/
theorem Tag.Words.not_for (h : t.Words ws) (hscanned : t.IsScanned) (hkind : t.kind = .block)
    (hrole : t.role ≠ .loop) (ts : List Token) : (ws ++ .blockEnd :: ts).head? ≠ some (.name "for") := by
  intro hhead
  cases ws with
  | nil => cases hhead
  | cons w ws =>
    cases hhead
    have hkey := (h.keyword_iff hscanned (c := 'f') (by decide) ['o', 'r']).2 ⟨ws, rfl⟩
    refine hrole ?_
    unfold Tag.role
    rw [hkind, hkey]
    rfl

theorem Woven.statement (hkind : t.kind = .block) (hwords : t.Words ws) (hscanned : t.IsScanned)
    (hrole : t.role ≠ .loop) (hw : ∀ w ∈ ws, w.IsOpen) (h : Woven .text ts) :
    Woven .text (t.kind.startToken :: (ws ++ Lexer.endToken t.kind :: ts)) := by
  rw [hkind]
  exact .block (hwords.not_for hscanned hkind hrole ts) (Woven.append_words rfl hw (.blockEnd h))

theorem Woven.copied (hwords : t.Words ws) (hscanned : t.IsScanned) (hfree : t.reserved? = none)
    (hrole : t.role ≠ .loop) (h : Woven .text ts) :
    Woven .text (t.kind.startToken :: (ws ++ Lexer.endToken t.kind :: ts)) := by
  have hopen := hwords.isOpen hscanned hfree
  cases hkind : t.kind with
  | expr => exact hkind ▸ Woven.expression hkind hopen h
  | block => exact hkind ▸ Woven.statement hkind hwords hscanned hrole hopen h

/-- A loop begins its body with the tick behind its tag. -/
theorem Woven.ticked {us : List Token} (hrole : t.role = .loop) (hwords : t.Words ws) (hscanned : t.IsScanned)
    (hfree : t.reserved? = none) (htick : (tickTag t.trail).Words us) (h : Woven .text ts) :
    Woven .text (t.kind.startToken :: (ws ++ Lexer.endToken t.kind ::
      (TagKind.block.startToken :: (us ++ Lexer.endToken .block :: ts)))) := by
  obtain ⟨hkind, hkey⟩ := t.role_loop hrole
  have hopen := hwords.isOpen hscanned hfree
  obtain ⟨ws', rfl⟩ := (hwords.keyword_iff hscanned (c := 'f') (by decide) ['o', 'r']).1 hkey
  rw [htick.unique (tickTag_words t.trail), hkind]
  exact .loop (Woven.append_words rfl (fun w hw => hopen w (List.mem_cons_of_mem _ hw)) (.loopEnd (.tick h)))

theorem Woven.called {name : String} {props : List (String × List Char)} (hname : GoodName name)
    (hprops : ∀ p ∈ props, GoodProp p.1 p.2) (hwords : (callTag name props).Words ws) (h : Woven .text ts) :
    Woven .text (TagKind.expr.startToken :: (ws ++ Lexer.endToken .expr :: ts)) := by
  obtain ⟨ws', rfl, hopen⟩ := callTag_words hname hprops hwords
  exact .component (Woven.append_words rfl hopen (.exprEnd h))

/-! ### Expansions -/

theorem Expanded.woven (h : Expanded ks kx) (hsafe : ∀ k ∈ ks, k.IsSafe) (hlocal : ∀ k ∈ ks, k.IsLocal)
    (hspelled : Spelled o kx ts tags) : Woven .text ts := by
  induction h generalizing o ts tags with
  | nil =>
    cases hspelled
    exact .nil
  | @copy k ks kx hk h ih =>
    have ih := fun {o ts tags} => @ih o ts tags
      (fun k hk => hsafe k (List.mem_cons_of_mem _ hk)) (fun k hk => hlocal k (List.mem_cons_of_mem _ hk))
    cases hspelled with
    | char hspelled => exact ih hspelled
    | data text hspelled => exact .data (ih hspelled)
    | comment hspelled => exact ih hspelled
    | raw text hspelled => exact .data (ih hspelled)
    | @tag _ t ws _ ts tags hw hspelled =>
      have hfree := (hsafe _ List.mem_cons_self).unreserved t List.mem_cons_self
      have hscanned := (hlocal _ List.mem_cons_self).1
      have hrole : t.role ≠ .loop := by
        intro hloop
        rcases hk with hother | hend
        · rw [hloop] at hother
          cases hother
        · rw [hloop] at hend
          cases hend
      exact Woven.copied hw hscanned hfree hrole (ih hspelled)
  | @loop t ks kx ht h ih =>
    have ih := fun {o ts tags} => @ih o ts tags
      (fun k hk => hsafe k (List.mem_cons_of_mem _ hk)) (fun k hk => hlocal k (List.mem_cons_of_mem _ hk))
    have hfree := (hsafe _ List.mem_cons_self).unreserved t List.mem_cons_self
    have hscanned := (hlocal _ List.mem_cons_self).1
    cases hspelled with
    | tag hw hspelled =>
      cases hspelled with
      | tag htick hspelled => exact Woven.ticked ht hw hscanned hfree htick (ih hspelled)
  | block ht hb hb' hhtml h ih =>
    obtain ⟨o', ts', hspelled', hwoven⟩ := Woven.of_chars hspelled
    exact hwoven (ih (fun k hk => hsafe k (by simp [hk])) (fun k hk => hlocal k (by simp [hk])) hspelled')
  | call ht hb hb' hname hprops h ih =>
    cases hspelled with
    | tag hw hspelled =>
      exact Woven.called hname hprops hw
        (ih (fun k hk => hsafe k (by simp [hk])) (fun k hk => hlocal k (by simp [hk])) hspelled)

end SecureLayout.Template

/-! ### Places of tags -/

namespace SecureLayout.Template

open Text (byteLength)

/-- A tag in a source. -/
structure TagPlace where
  kind : TagKind
  /-- Octets of the source in front of it. -/
  start : Nat
  /-- Octets of the source up to its end; nothing if that was not reached. -/
  stop : Option Nat
  /-- The name that a block begins with. -/
  keyword : Option String
  deriving DecidableEq, Repr

def keywordOf (kind : TagKind) (name : String) : Option String :=
  match kind with
  | .block => some name
  | .expr => none

/-- The name that words begin with. -/
def firstName : List Token → String
  | .name n :: _ => n
  | _ => ""

def SeenTag.place (t : SeenTag) : TagPlace :=
  ⟨t.kind, t.start, t.stop, keywordOf t.kind (firstName t.words)⟩

def Tag.place (o : Nat) (t : Tag) : TagPlace :=
  ⟨t.kind, o, some (o + byteLength t.source), keywordOf t.kind (String.ofList t.keyword)⟩

/-- The tags among pieces that begin behind some octets. -/
def tagPlaces (o : Nat) : List Piece → List TagPlace
  | [] => []
  | .tag t :: ps => t.place o :: tagPlaces (o + byteLength t.source) ps
  | q :: ps => tagPlaces (o + byteLength q.source) ps

/-- The lexer came to the end of the source and to the end of every tag. -/
def Tokens.IsComplete (ts : Tokens) : Prop :=
  ts.fault = none ∧ ∀ t ∈ ts.tags, t.stop ≠ none

/-- The tags that the lexer came to the end of. -/
def Tokens.complete (ts : Tokens) : List SeenTag :=
  ts.tags.filter fun t => t.stop.isSome

variable {o : Nat} {ks kx ls : List Chunk} {ts ws : List Token} {tags : List SeenTag} {t : Tag}

theorem tagPlaces_append (ps qs : List Piece) :
    tagPlaces o (ps ++ qs) = tagPlaces o ps ++ tagPlaces (o + byteLength (ps.flatMap Piece.source)) qs := by
  induction ps generalizing o with
  | nil => rfl
  | cons q ps ih =>
    have hsum : o + byteLength q.source + byteLength (ps.flatMap Piece.source) =
        o + byteLength ((q :: ps).flatMap Piece.source) := by
      rw [List.flatMap_cons, byteLength_append, Nat.add_assoc]
    cases q with
    | tag t =>
      change t.place o :: tagPlaces (o + byteLength t.source) (ps ++ qs) = _
      rw [ih, ← hsum]
      rfl
    | char c =>
      change tagPlaces (o + byteLength [c]) (ps ++ qs) = _
      rw [ih, ← hsum]
      rfl
    | hidden cs =>
      change tagPlaces (o + byteLength cs) (ps ++ qs) = _
      rw [ih, ← hsum]
      rfl

/-! ### Keywords -/

/-- The lexer finds the keyword of the scanner. -/
def Tag.KeywordRead (t : Tag) : Prop :=
  ∀ ws, t.Words ws → t.kind = .block → firstName ws = String.ofList t.keyword

theorem Tag.KeywordRead.of_keyword (hscanned : t.IsScanned) {c : Char} {r : List Char}
    (hc : Text.isNameStart c = true) (hkey : t.keyword = c :: r) : t.KeywordRead := by
  intro ws hw _
  obtain ⟨ws', rfl⟩ := (hw.keyword_iff hscanned hc r).1 hkey
  rw [hkey]
  rfl

theorem statementWords_isNameStart {n : String} (hn : n ∈ statementWords) :
    ∃ c r, n.toList = c :: r ∧ Text.isNameStart c = true := by
  have hall : ∀ n ∈ statementWords, (n.toList.head?.any Text.isNameStart) = true := by decide
  have hhead := hall n hn
  cases hlist : n.toList with
  | nil =>
    rw [hlist] at hhead
    cases hhead
  | cons c r =>
    rw [hlist] at hhead
    exact ⟨c, r, rfl, hhead⟩

theorem Tag.KeywordRead.of_statement (hscanned : t.IsScanned) {n : String} (hn : n ∈ statementWords)
    (hw : t.Words (.name n :: ws)) : t.KeywordRead := by
  obtain ⟨c, r, hlist, hc⟩ := statementWords_isNameStart hn
  have hname : n = String.ofList (c :: r) := by rw [← hlist, String.ofList_toList]
  exact .of_keyword hscanned hc ((hw.keyword_iff hscanned hc r).2 ⟨ws, by rw [hname]⟩)

theorem Tag.KeywordRead.of_directive (hscanned : t.IsScanned) (hrole : t.role = .directive) : t.KeywordRead :=
  .of_keyword hscanned (c := 'c') (by decide) (t.role_directive hrole).2

/-- Every tag of a template has words, and a block begins with the name of a statement. -/
theorem Spelled.tag_words (h : Spelled o ks ts tags) (hshaped : Shaped false ts) (hmem : .tag t ∈ ks) :
    ∃ ws, t.Words ws ∧ (t.kind = .block → ∃ n ws', ws = .name n :: ws' ∧ n ∈ statementWords) := by
  induction h with
  | nil => cases hmem
  | char _ ih =>
    rcases List.mem_cons.1 hmem with heq | hmem
    · cases heq
    · exact ih hshaped hmem
  | data text _ ih =>
    rcases List.mem_cons.1 hmem with heq | hmem
    · cases heq
    · exact ih hshaped.of_data hmem
  | comment _ ih =>
    rcases List.mem_cons.1 hmem with heq | hmem
    · cases heq
    · exact ih hshaped hmem
  | raw text _ ih =>
    rcases List.mem_cons.1 hmem with heq | hmem
    · cases heq
    · exact ih hshaped.of_data hmem
  | @tag _ t' ws _ ts _ hw _ ih =>
    rcases List.mem_cons.1 hmem with heq | hmem
    · cases heq
      refine ⟨ws, hw, ?_⟩
      intro hkind
      rw [hkind] at hshaped
      cases ws with
      | nil => cases hshaped
      | cons w ws =>
        cases hshaped with
        | block hword _ => exact ⟨_, ws, rfl, hword⟩
    · exact ih (hshaped.of_tag hw.isWord) hmem

/-! ### Places -/

/-- The lexer finds the tags of its chunks where they stand. -/
theorem Spelled.places (h : Spelled o ks ts tags) (hkey : ∀ t, .tag t ∈ ks → t.KeywordRead)
    (hraw : ∀ t section_, .raw t section_ ∈ ks → t.isRaw = true) :
    tags.map SeenTag.place = tagPlaces o (ks.flatMap Chunk.pieces) := by
  induction h with
  | nil => rfl
  | char _ ih => exact ih (fun t ht => hkey t (List.mem_cons_of_mem _ ht)) fun t s ht => hraw t s (List.mem_cons_of_mem _ ht)
  | data text _ ih =>
    exact ih (fun t ht => hkey t (List.mem_cons_of_mem _ ht)) fun t s ht => hraw t s (List.mem_cons_of_mem _ ht)
  | @comment o text ks ts tags _ ih =>
    have ih := ih (fun t ht => hkey t (List.mem_cons_of_mem _ ht)) fun t s ht => hraw t s (List.mem_cons_of_mem _ ht)
    rw [Chunk.source_comment] at ih
    exact ih
  | @raw o t section_ ks ts tags text _ ih =>
    have ih := ih (fun t ht => hkey t (List.mem_cons_of_mem _ ht)) fun t s ht => hraw t s (List.mem_cons_of_mem _ ht)
    obtain ⟨hkind, hkeyword⟩ := (Bool.and_eq_true _ _).mp (hraw t section_ List.mem_cons_self)
    rw [Chunk.source_raw, byteLength_append, ← Nat.add_assoc] at ih
    have hplace : (SeenTag.mk .block o (some (o + byteLength t.source)) [.name "raw"]).place = t.place o := by
      unfold SeenTag.place Tag.place
      rw [eq_of_beq hkind, eq_of_beq hkeyword]
      rfl
    rw [List.map_cons, ih, hplace]
    rfl
  | @tag o t ws ks ts tags hw _ ih =>
    have ih := ih (fun t ht => hkey t (List.mem_cons_of_mem _ ht)) fun t s ht => hraw t s (List.mem_cons_of_mem _ ht)
    rw [Chunk.source_tag] at ih
    have hplace : (SeenTag.mk t.kind o (some (o + byteLength t.source)) ws).place = t.place o := by
      unfold SeenTag.place Tag.place
      cases hkind : t.kind with
      | expr => rfl
      | block =>
        dsimp only
        rw [hkey t List.mem_cons_self ws hw hkind]
    rw [List.map_cons, ih, hplace]
    rfl

/-- The words of complete tags are open to layouts if the scanner let the tags pass. -/
theorem Spelled.isOpen (h : Spelled o ks ts tags) (hlocal : ∀ k ∈ ks, k.IsLocal) (hsafe : ∀ k ∈ ks, k.IsSafe) :
    ∀ seen ∈ tags, ∀ w ∈ seen.words, w.IsOpen := by
  induction h with
  | nil => exact nofun
  | char _ ih => exact ih (List.forall_mem_cons.1 hlocal).2 (List.forall_mem_cons.1 hsafe).2
  | data text _ ih => exact ih (List.forall_mem_cons.1 hlocal).2 (List.forall_mem_cons.1 hsafe).2
  | comment _ ih => exact ih (List.forall_mem_cons.1 hlocal).2 (List.forall_mem_cons.1 hsafe).2
  | raw text _ ih =>
    have ih := ih (List.forall_mem_cons.1 hlocal).2 (List.forall_mem_cons.1 hsafe).2
    refine List.forall_mem_cons.2 ⟨?_, ih⟩
    intro w hw
    cases List.mem_singleton.1 hw
    refine ⟨rfl, ?_⟩
    rintro n ⟨⟩
    unfold IsOpenName
    decide
  | @tag _ t _ _ _ _ hw _ ih =>
    have ih := ih (List.forall_mem_cons.1 hlocal).2 (List.forall_mem_cons.1 hsafe).2
    obtain ⟨hk, -⟩ := List.forall_mem_cons.1 hlocal
    obtain ⟨hs, -⟩ := List.forall_mem_cons.1 hsafe
    exact List.forall_mem_cons.2 ⟨hw.isOpen hk.1 (hs.unreserved t List.mem_cons_self), ih⟩

theorem Spelled.stop (h : Spelled o ks ts tags) : ∀ seen ∈ tags, seen.stop ≠ none := by
  induction h with
  | nil => exact nofun
  | char _ ih => exact ih
  | data text _ ih => exact ih
  | comment _ ih => exact ih
  | raw text _ ih => exact List.forall_mem_cons.2 ⟨nofun, ih⟩
  | tag hw _ ih => exact List.forall_mem_cons.2 ⟨nofun, ih⟩

theorem Chunk.source_ne_nil (k : Chunk) : k.source ≠ [] := by
  cases k <;> simp [Chunk.source, Chunk.pieces, Piece.source, Tag.source]

theorem cutSource_eq_nil (h : cutSource ks = []) : ks = [] := by
  cases ks with
  | nil => rfl
  | cons k ks => exact absurd (List.append_eq_nil_iff.1 h).1 k.source_ne_nil

theorem Cut.of_append {r : List Char} (h : Cut (ls ++ ks) r) : Cut ks r := by
  induction ls with
  | nil => exact h
  | cons l ls ih =>
    cases h with
    | cons _ _ h => exact ih h

/-- What the lexer reads of a source is a beginning of the cut. -/
theorem Cut.reads {r : List Char} (h : Cut ks []) (hls : Cut ls r) (hs : cutSource ks = cutSource ls ++ r) :
    ∃ more, ks = ls ++ more ∧ r = cutSource more := by
  rcases h.unique hls (by rw [List.append_nil, hs]) with ⟨more, hks, hr⟩ | ⟨more, rfl, hr⟩
  · exact ⟨more, hks, by rw [hr, List.append_nil]⟩
  · obtain ⟨hmore, rfl⟩ := List.append_eq_nil_iff.1 hr.symm
    obtain rfl := cutSource_eq_nil hmore
    exact ⟨[], by rw [List.append_nil, List.append_nil], rfl⟩

/-- The lexer reads the chunks of a source up to a tag that has no words. -/
theorem CutUntil.source_lexed (hcut : CutUntil OddRaw ks) (hbare : ∀ t section_, .raw t section_ ∈ ks → t.IsBare)
    (hsolid : ∀ k ∈ ks, k.IsSolid) (space : BlockSpace) :
    ∃ ls more ts tags open_, ks = ls ++ more ∧ Spelled 0 ls ts tags ∧
      (tokenize space (cutSource ks)).tags = tags ++ open_ ∧ (∀ t ∈ open_, t.stop = none) ∧
      (((∃ b, more = chars b) ∧ (tokenize space (cutSource ks)).fault = none ∧ open_ = []) ∨
        ((tokenize space (cutSource ks)).fault ≠ none ∨ open_ ≠ []) ∧
          ∃ t r, more = .tag t :: r ∧ ¬ ∃ ws, t.Words ws) := by
  obtain ⟨ky, b, rfl, -, hsource⟩ := split_lineEnd hsolid
  have hky : Cut ky [] :=
    (hcut.of_append OddRaw.of_append).cut fun t s hmem => hbare t s (List.mem_append_left _ hmem)
  obtain ⟨ls, ts, tags, r, rest, open_, hls, hs, hspelled, -, htags, hhalts⟩ :=
    tokenize_outcome space (cutSource (ky ++ chars b))
  rw [← hsource] at hs
  rw [List.reverse_nil, List.nil_append] at htags
  obtain ⟨more, rfl, rfl⟩ := hky.reads hls hs
  generalize (tokenize space (cutSource (ls ++ more ++ chars b))).fault = fault at hhalts ⊢
  generalize hrest : cutSource more = s at hhalts
  refine ⟨ls, more ++ chars b, ts, tags, open_, List.append_assoc _ _ _, hspelled, htags, ?_, ?_⟩
  · cases hhalts with
    | done => exact nofun
    | stuck _ _ _ hopen => exact hopen
  · cases hhalts with
    | done =>
      obtain rfl := cutSource_eq_nil hrest
      exact .inl ⟨⟨b, rfl⟩, rfl, rfl⟩
    | stuck hstuck _ hbroken _ =>
      refine .inr ⟨hbroken, ?_⟩
      cases more with
      | nil =>
        rw [← hrest] at hstuck
        cases hstuck.1
      | cons k more =>
        cases hky.of_append with
        | cons hk hc _ =>
          rcases hstuck.2 k (cutSource more) hk hrest.symm with ⟨c, rfl⟩ | ⟨t, rfl, hnone⟩
          · have hclosed := hc c rfl
            have hopens := hstuck.1
            rw [← hrest] at hopens
            rw [List.append_nil] at hclosed
            exact absurd (hopens.symm.trans hclosed) nofun
          · exact ⟨t, more ++ chars b, rfl, hnone⟩

theorem tagPlaces_chars (s : List Char) : tagPlaces o ((chars s).flatMap Chunk.pieces) = [] := by
  induction s generalizing o with
  | nil => rfl
  | cons c s ih => exact ih

/-! ### The tags of the scanner and of the lexer -/

variable {policy : SecurityPolicy} {registry : Option Component.Registry} {space : BlockSpace} {name : String}
  {source x : List Char} {ps : List Piece} {b : List Stmt}

/-- A source whose expansion is a template, chunk by chunk. -/
theorem scanned_expanded (hscan : scan source = .ok ps) (hplain : RawEndsPlain ps)
    (hexpand : expand policy registry source = .ok x) :
    ∃ ks kx, ps = ks.flatMap Chunk.pieces ∧ source = cutSource ks ∧ x = cutSource kx ∧ CutUntil OddRaw ks ∧
      (∀ k ∈ ks, k.IsSafe) ∧ Expanded ks kx := by
  obtain ⟨ks, rfl, hcut, hsafe⟩ := scanFrom_cut hscan hplain
  have hsource := scanFrom_source hscan
  rw [List.flatMap_assoc] at hsource
  have hpieces : expandPieces policy registry (ks.flatMap Chunk.pieces) 0 {} = .ok x := by
    unfold expand at hexpand
    rw [hscan] at hexpand
    exact hexpand
  obtain ⟨kx, hx, hexpanded⟩ := expandPieces_expanded hsafe .nil rfl hpieces
  exact ⟨ks, kx, rfl, hsource.symm, hx, hcut, hsafe, hexpanded⟩

/-- Where raw sections end plainly, the scanner finds the tags that the lexer finds in a source whose expansion is
a template, and goes on only where the lexer breaks off in a directive. Every loop body of the expansion begins
with a tick, and layouts name nothing that is reserved. -/
theorem scan_agrees_with_lexer (hscan : scan source = .ok ps) (hplain : RawEndsPlain ps)
    (hexpand : expand policy registry source = .ok x) (hparse : parse space name x = .ok b) :
    ((tokenize space source).IsComplete → tagPlaces 0 ps = (tokenize space source).tags.map SeenTag.place) ∧
      (¬ (tokenize space source).IsComplete → ∃ p missed,
        tagPlaces 0 ps = (tokenize space source).complete.map SeenTag.place ++ p :: missed ∧
          p.keyword = some "component") ∧
      (∀ t ∈ (tokenize space source).complete, ∀ w ∈ t.words, w.IsOpen) ∧
      Woven .text ((tokenize space x).tokens.map Spanned.token) := by
  obtain ⟨ks, kx, rfl, rfl, rfl, hcut, hsafe, hexpanded⟩ := scanned_expanded hscan hplain hexpand
  obtain ⟨hbare, ts, tags, hspelled, hshaped, htokens, -⟩ := hexpanded.lexed (hcut.mono fun _ => .inl) hsafe hparse
  have hlocal := (hcut.cut hbare).isLocal
  have hwords : ∀ t, .tag t ∈ ks → t.role ≠ .directive →
      ∃ ws, t.Words ws ∧ (t.kind = .block → ∃ n ws', ws = .name n :: ws' ∧ n ∈ statementWords) := by
    intro t hmem hrole
    refine hspelled.tag_words hshaped (hexpanded.mem nofun ?_ hmem)
    rintro t ⟨⟩
    exact hrole
  have hkey : ∀ t, .tag t ∈ ks → t.KeywordRead := by
    intro t hmem
    have hscanned := (hlocal _ hmem).1
    by_cases hrole : t.role = .directive
    · exact .of_directive hscanned hrole
    · obtain ⟨ws, hw, hblock⟩ := hwords t hmem hrole
      intro us hus hkind
      obtain ⟨n, ws', rfl, hn⟩ := hblock hkind
      exact Tag.KeywordRead.of_statement hscanned hn hw us hus hkind
  have hraw : ∀ t section_, .raw t section_ ∈ ks → t.isRaw = true :=
    fun t s hmem => ((hsafe _ hmem).raw t s rfl).1
  obtain ⟨ls, more, ts', seen, open_, rfl, hls, htags, hopen, hend⟩ :=
    hcut.source_lexed hbare (fun k hk => (hsafe k hk).isSolid) space
  have hseen := hls.places (fun t hmem => hkey t (List.mem_append_left _ hmem))
    fun t s hmem => hraw t s (List.mem_append_left _ hmem)
  have hplaces := tagPlaces_append (o := 0) (ls.flatMap Chunk.pieces) (more.flatMap Chunk.pieces)
  rw [← List.flatMap_append, ← hseen] at hplaces
  have hcomplete : (tokenize space (cutSource (ls ++ more))).complete = seen := by
    rw [Tokens.complete, htags, List.filter_append, List.filter_eq_self.2, List.filter_eq_nil_iff.2,
      List.append_nil]
    · intro t ht
      rw [hopen t ht]
      exact nofun
    · intro t ht
      exact Option.isSome_iff_ne_none.2 (hls.stop t ht)
  refine ⟨?_, ?_, ?_, ?_⟩
  · rintro ⟨hfault, hstop⟩
    rcases hend with ⟨⟨s, rfl⟩, -, rfl⟩ | ⟨hbroken, -⟩
    · rw [hplaces, tagPlaces_chars, htags, List.append_nil, List.append_nil]
    · exfalso
      rcases hbroken with hbroken | hbroken
      · exact hbroken hfault
      · obtain ⟨t, ht⟩ := List.exists_mem_of_ne_nil _ hbroken
        exact hstop t (by rw [htags]; exact List.mem_append_right _ ht) (hopen t ht)
  · intro hincomplete
    rcases hend with ⟨-, hfault, rfl⟩ | ⟨-, t, r, rfl, hnone⟩
    · refine absurd ⟨hfault, ?_⟩ hincomplete
      rw [htags, List.append_nil]
      exact hls.stop
    · have hmem : .tag t ∈ ls ++ .tag t :: r := List.mem_append_right _ List.mem_cons_self
      have hrole : t.role = .directive := by
        by_contra hrole
        obtain ⟨ws, hw, -⟩ := hwords t hmem hrole
        exact hnone ⟨ws, hw⟩
      obtain ⟨hkind, hkeyword⟩ := t.role_directive hrole
      rw [hcomplete, hplaces]
      refine ⟨_, _, rfl, ?_⟩
      change keywordOf t.kind (String.ofList t.keyword) = _
      rw [hkind, hkeyword]
      rfl
  · rw [hcomplete]
    exact hls.isOpen (fun k hk => hlocal k (List.mem_append_left _ hk)) fun k hk => hsafe k (List.mem_append_left _ hk)
  · rw [htokens]
    exact hexpanded.woven hsafe hlocal hspelled

end SecureLayout.Template
