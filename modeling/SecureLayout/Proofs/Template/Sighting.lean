import SecureLayout.Proofs.Template.Lines
import SecureLayout.Proofs.Template.Seeking

/-!
The scanner over places of a source. Main statements: whatever the source, it comes to its end, is refused no slice,
and finds the tags that the scanner of characters finds; and these stand in order, each with its own source between
its places.
-/

namespace SecureLayout.Template

open Text (byteLength octets slice? find? findLast? Turn rounds)

variable {s u v w src : List Char}

/-! ### Slices of tags -/

/-- The name that the body of a tag begins with. -/
def keywordAt (body : List Char) : Option (List Char) :=
  let text := Text.trimStart body
  slice? text 0 ((find? (fun c => !Text.isNamePart c) text).getD (byteLength text))

/-- What comes after that name. -/
def argsAt (body : List Char) : Option (List Char) := do
  let keyword ← keywordAt body
  let text := Text.trimStart body
  slice? text (byteLength keyword) (byteLength text)

theorem keywordAt_eq (t : Tag) : keywordAt t.body = some t.keyword := by
  unfold keywordAt Tag.keyword
  dsimp only
  rcases Text.first_or_none (fun c => !Text.isNamePart c) (Text.trimStart t.body) with hnone | ⟨u, c, v, htext, hu, hc⟩
  · have hall : ∀ c ∈ Text.trimStart t.body, Text.isNamePart c = true := fun c hc => by simpa using hnone c hc
    rw [Text.find?_eq_none hnone, List.takeWhile_eq_self_iff.2 hall]
    simpa using Text.slice?_front (Text.trimStart t.body) []
  · have hall : ∀ c ∈ u, Text.isNamePart c = true := fun c hc => by simpa using hu c hc
    have hstop : ¬ Text.isNamePart c = true := by simpa using hc
    rw [htext, Text.find?_eq_some hu hc, List.takeWhile_append_of_pos hall, List.takeWhile_cons_of_neg hstop,
      List.append_nil]
    exact Text.slice?_front u (c :: v)

theorem argsAt_eq (t : Tag) : argsAt t.body = some t.args := by
  have hsplit : Text.trimStart t.body = t.keyword ++ t.args := List.takeWhile_append_dropWhile.symm
  unfold argsAt
  rw [keywordAt_eq]
  simp only [Option.bind_eq_bind, Option.bind_some]
  rw [hsplit, Text.slice?_rest]

/-- The number of the line where a place is. -/
def lineAt (src : List Char) (place : Nat) : Option Nat := do
  let before ← slice? src 0 place
  some (lineEnds before + 1)

theorem lineAt_eq (u v : List Char) : lineAt (u ++ v) (byteLength u) = some (1 + lineEnds u) := by
  rw [lineAt, Text.slice?_front, Nat.add_comm]
  rfl

/-! ### The scanner -/

/-- A tag with the place where it begins and the place behind it. -/
structure FoundTag where
  tag : Tag
  start : Nat
  stop : Nat
  deriving DecidableEq, Repr

/-- Where the scanner is, with the tags found so far. -/
structure Scanning where
  place : Nat := 0
  tags : List FoundTag := []

def unterminatedAt (src : List Char) (start : Nat) (what : String) : Option (Turn Scanning (Result (List FoundTag))) := do
  let line ← lineAt src start
  some (.done (unterminated line what))

/-- The sign at a place behind an opening delimiter. -/
def leadAt (bytes : List Char) (place : Nat) : Mark :=
  if bytes[place]? = some '-' then .minus else if bytes[place]? = some '+' then .plus else .none

/-- One tag, from the place of its opening brace. -/
def tagRound (src : List Char) (kind : TagKind) (start : Nat) (tags : List FoundTag) :
    Option (Turn Scanning (Result (List FoundTag))) := do
  let lead := leadAt (octets src) (start + 2)
  let first := start + 2 + lead.source.length
  match ← findClose kind (octets src) first with
  | none => unterminatedAt src start "tag"
  | some (last, trail) =>
    let stop := last + trail.source.length + 2
    let body ← slice? src first last
    let found := tags ++ [⟨⟨kind, lead, body, trail⟩, start, stop⟩]
    match ← findReserved body with
    | some name =>
      let line ← lineAt src start
      some (.done (.error (.badSyntax ("identifier " ++ String.ofList name ++ " is reserved") (some line))))
    | none =>
      let keyword ← keywordAt body
      if kind = .block && keyword = "raw".toList then
        let rest ← slice? src stop (byteLength src)
        match rawSection? rest with
        | some (section_, _) => some (.again ⟨stop + byteLength section_, found⟩)
        | none => unterminatedAt src start "raw block"
      else some (.again ⟨stop, found⟩)

/-- What an opening brace begins. -/
def braceRound (src : List Char) (start : Nat) (tags : List FoundTag) :
    Option (Turn Scanning (Result (List FoundTag))) :=
  match (octets src)[start + 1]? with
  | none => some (.again ⟨start + 1, tags⟩)
  | some c =>
    if c = '#' then do
      let rest ← slice? src (start + 2) (byteLength src)
      match Text.splitAtMark ['#', '\x7d'] rest with
      | some (comment, _) => some (.again ⟨start + 2 + byteLength comment + 2, tags⟩)
      | none => unterminatedAt src start "comment"
    else
      match tagKind? c with
      | none => some (.again ⟨start + 1, tags⟩)
      | some kind => tagRound src kind start tags

def scanRound (src : List Char) (k : Scanning) : Option (Turn Scanning (Result (List FoundTag))) := do
  let rest ← slice? src k.place (byteLength src)
  match find? (· == '\x7b') rest with
  | none => some (.done (.ok k.tags))
  | some before => braceRound src (k.place + before) k.tags

/-- Every tag of a source with its places. Nothing if a slice is refused, or if there are more rounds than octets. -/
def scanAt (src : List Char) : Option (Result (List FoundTag)) :=
  rounds (scanRound src) ((octets src).length + 1) {}

/-- The tags among pieces that begin at a place. -/
def foundTags (place : Nat) : List Piece → List FoundTag
  | [] => []
  | .tag t :: ps => ⟨t, place, place + byteLength t.source⟩ :: foundTags (place + byteLength t.source) ps
  | q :: ps => foundTags (place + byteLength q.source) ps

theorem foundTags_append (place : Nat) (ps qs : List Piece) :
    foundTags place (ps ++ qs) =
      foundTags place ps ++ foundTags (place + byteLength (ps.flatMap Piece.source)) qs := by
  induction ps generalizing place with
  | nil => rfl
  | cons q ps ih =>
    have hsum : place + byteLength q.source + byteLength (ps.flatMap Piece.source) =
        place + byteLength ((q :: ps).flatMap Piece.source) := by
      rw [List.flatMap_cons, byteLength_append, Nat.add_assoc]
    have ih := ih (place + byteLength q.source)
    rw [hsum] at ih
    cases q with
    | tag t => exact congrArg (⟨t, place, place + byteLength t.source⟩ :: ·) ih
    | char c => exact ih
    | hidden cs => exact ih

/-! ### Its rounds -/

theorem scanFrom_step {line : Nat} {c : Char} {rest : List Char} {qs : List Piece}
    (h : piece line c s = .ok (qs, rest)) :
    scanFrom line (c :: s) = (qs ++ ·) <$> scanFrom (line + lineEnds (qs.flatMap Piece.source)) rest := by
  cases hmore : scanFrom (line + lineEnds (qs.flatMap Piece.source)) rest with
  | ok more => exact scanFrom_cons h hmore
  | error e =>
    rw [scanFrom]
    split
    · next heq =>
      rw [h] at heq
      cases heq
    · next heq =>
      rw [h] at heq
      cases heq
      rw [hmore]
      rfl

theorem scanFrom_refused {line : Nat} {c : Char} {e : Failure} (h : piece line c s = .error e) :
    scanFrom line (c :: s) = .error e := by
  rw [scanFrom]
  split
  · next heq =>
    rw [h] at heq
    cases heq
    rfl
  · next heq =>
    rw [h] at heq
    cases heq

theorem piece_char {c : Char} (hc : c ≠ '\x7b') (line : Nat) (s : List Char) : piece line c s = .ok ([.char c], s) := by
  unfold piece
  split
  · exact absurd rfl hc
  · exact absurd rfl hc
  · rfl

/-- Characters up to a brace are passed one by one. -/
theorem scanFrom_plain (hw : ∀ c ∈ w, (c == '\x7b') = false) (line : Nat) (s : List Char) :
    scanFrom line (w ++ s) = (w.map .char ++ ·) <$> scanFrom (line + lineEnds w) s := by
  induction w generalizing line with
  | nil => cases h : scanFrom line s <;> simp [lineEnds, h]
  | cons c w ih =>
    obtain ⟨hc, hw⟩ := List.forall_mem_cons.1 hw
    have hline : line + lineEnds [c] + lineEnds w = line + lineEnds (c :: w) := by
      rw [Nat.add_assoc, ← lineEnds_append]
      rfl
    rw [List.cons_append, scanFrom_step (piece_char (by simpa using hc) line _), List.flatMap_singleton, Piece.source,
      ih hw, hline]
    cases scanFrom (line + lineEnds (c :: w)) s <;> rfl

/-- A round at a brace takes the piece that begins there. -/
def takesPiece (u : List Char) (tags : List FoundTag) :
    Result (List Piece × List Char) → Turn Scanning (Result (List FoundTag))
  | .error e => .done (.error e)
  | .ok (qs, _) => .again ⟨byteLength (u ++ qs.flatMap Piece.source), tags ++ foundTags (byteLength u) qs⟩

theorem piece_kind (line : Nat) (kind : TagKind) (s : List Char) :
    piece line '\x7b' (kind.opens :: s) =
      match tag? kind s with
      | none => unterminated line "tag"
      | some (t, rest) =>
        match t.reserved? with
        | some name =>
          .error (.badSyntax ("identifier " ++ String.ofList name ++ " is reserved") (some line))
        | none =>
          if t.kind = .block && t.keyword = "raw".toList then
            match rawSection? rest with
            | some (section_, rest) => .ok ([.tag t, .hidden section_], rest)
            | none => unterminated line "raw block"
          else .ok ([.tag t], rest) := by
  cases kind <;> rfl

theorem piece_comment (line : Nat) (s : List Char) :
    piece line '\x7b' ('#' :: s) =
      match Text.splitAtMark ['#', '\x7d'] s with
      | some (comment, rest) => .ok ([.hidden ('\x7b' :: '#' :: (comment ++ ['#', '\x7d']))], rest)
      | none => unterminated line "comment" := rfl

theorem unterminatedAt_eq (u v : List Char) (tags : List FoundTag) (what : String) :
    unterminatedAt (u ++ v) (byteLength u) what = some (takesPiece u tags (unterminated (1 + lineEnds u) what)) := by
  rw [unterminatedAt, lineAt_eq]
  rfl

theorem byteLength_opener (kind : TagKind) (m : Mark) :
    byteLength ('\x7b' :: kind.opens :: m.source) = 2 + m.source.length := by
  cases kind <;> cases m <;> rfl

theorem byteLength_closer (kind : TagKind) (m : Mark) :
    byteLength (m.source ++ [kind.closes, '\x7d']) = m.source.length + 2 := by
  cases kind <;> cases m <;> rfl

theorem leadMark_fst (s : List Char) :
    (leadMark s).1 = if s.head? = some '-' then .minus else if s.head? = some '+' then .plus else .none := by
  unfold leadMark
  split
  · rfl
  · rfl
  · next hminus hplus =>
    cases s with
    | nil => rfl
    | cons c s =>
      rw [if_neg (by rintro ⟨⟩; exact hminus s rfl), if_neg (by rintro ⟨⟩; exact hplus s rfl)]

theorem leadAt_eq {bytes : List Char} {place : Nat} (h : bytes.drop place = octets s) :
    leadAt bytes place = (leadMark s).1 := by
  have hhead : bytes[place]? = (octets s).head? := by rw [← List.head?_drop, h]
  rw [leadAt, hhead, leadMark_fst, if_congr (Text.head?_octets_iff (by decide)) rfl rfl,
    if_congr (Text.head?_octets_iff (by decide)) rfl rfl]

/-- The sign of a tag is read from the octets. -/
theorem leadAt_opener (kind : TagKind) (u s : List Char) :
    leadAt (octets (u ++ '\x7b' :: kind.opens :: s)) (byteLength u + 2) = (leadMark s).1 := by
  have hplace : byteLength u + 2 = byteLength (u ++ ['\x7b', kind.opens]) := by
    rw [byteLength_append]
    exact congrArg (byteLength u + ·) (byteLength_opener kind .none).symm
  have hsplit : u ++ '\x7b' :: kind.opens :: s = (u ++ ['\x7b', kind.opens]) ++ s :=
    (List.append_assoc u ['\x7b', kind.opens] s).symm
  rw [hsplit, hplace, leadAt_eq (Text.drop_octets _ s)]

/-- The place behind an opening delimiter with its sign. -/
theorem byteLength_lead (kind : TagKind) (lead : Mark) (u : List Char) :
    byteLength u + 2 + lead.source.length = byteLength (u ++ '\x7b' :: kind.opens :: lead.source) := by
  rw [byteLength_append, byteLength_opener, Nat.add_assoc]

theorem byteLength_tag (t : Tag) :
    byteLength t.source = 2 + t.lead.source.length + byteLength t.body + (t.trail.source.length + 2) := by
  have hsource : t.source =
      '\x7b' :: t.kind.opens :: t.lead.source ++ (t.body ++ (t.trail.source ++ [t.kind.closes, '\x7d'])) := by
    simp [Tag.source]
  rw [hsource, byteLength_append, byteLength_append, byteLength_opener, byteLength_closer]
  omega

/-- The body of a tag is a slice of the source. -/
theorem slice?_body (t : Tag) (u rest : List Char) :
    slice? (u ++ (t.source ++ rest)) (byteLength u + 2 + t.lead.source.length)
      (byteLength u + 2 + t.lead.source.length + byteLength t.body) = some t.body := by
  rw [byteLength_lead t.kind]
  refine Text.slice?_eq_some.2
    ⟨u ++ '\x7b' :: t.kind.opens :: t.lead.source, t.trail.source ++ t.kind.closes :: '\x7d' :: rest, ?_, rfl, rfl⟩
  simp [Tag.source]

theorem tagRound_eq (kind : TagKind) (u s : List Char) (tags : List FoundTag) :
    tagRound (u ++ '\x7b' :: kind.opens :: s) kind (byteLength u) tags =
      some (takesPiece u tags (piece (1 + lineEnds u) '\x7b' (kind.opens :: s))) := by
  obtain ⟨lead, r, hlead⟩ : ∃ lead r, leadMark s = (lead, r) := ⟨_, _, rfl⟩
  have hat := leadAt_opener kind u s
  have hs := leadMark_source s
  rw [hlead] at hat hs
  have hsrc : u ++ '\x7b' :: kind.opens :: s = (u ++ '\x7b' :: kind.opens :: lead.source) ++ r := by
    rw [← hs]
    simp
  have hclose := findClose_eq kind (u ++ '\x7b' :: kind.opens :: lead.source) r
  rw [← hsrc, ← byteLength_lead] at hclose
  rw [piece_kind, tag?, hlead]
  unfold tagRound
  simp only [hat, hclose, Option.bind_eq_bind, Option.bind_some]
  cases hbody : body? kind .code 0 r with
  | none => exact unterminatedAt_eq u _ tags "tag"
  | some x =>
    obtain ⟨body, trail, rest⟩ := x
    -- The tag that is found, with the text behind it.
    generalize ht : (⟨kind, lead, body, trail⟩ : Tag) = t
    have htag : u ++ '\x7b' :: kind.opens :: s = u ++ (t.source ++ rest) := by
      rw [hsrc, body?_source hbody, ← ht]
      simp [Tag.source]
    have hbodyAt := slice?_body t u rest
    have hkeyword := keywordAt_eq t
    have hstop : byteLength u + 2 + t.lead.source.length + byteLength t.body + t.trail.source.length + 2 =
        byteLength u + byteLength t.source := by
      rw [byteLength_tag]
      omega
    subst ht
    rw [htag]
    simp only [Option.map_some, hbodyAt, findReserved_eq, hkeyword, Option.bind_some, hstop]
    rw [Tag.reserved?]
    cases reservedName? (.outside .code) body with
    | some name =>
      dsimp only
      rw [lineAt_eq]
      rfl
    | none =>
      dsimp only
      split
      · have hrest := Text.slice?_rest (u ++ (⟨kind, lead, body, trail⟩ : Tag).source) rest
        rw [byteLength_append u, List.append_assoc] at hrest
        simp only [hrest, Option.bind_some]
        cases rawSection? rest with
        | none => exact unterminatedAt_eq u _ tags "raw block"
        | some y => simp [takesPiece, Piece.source, foundTags, byteLength_append, Nat.add_assoc]
      · simp [takesPiece, Piece.source, foundTags, byteLength_append]

theorem piece_brace (line : Nat) (hs : ∀ a ∈ ['#', '%', '\x7b'], s.head? ≠ some a) :
    piece line '\x7b' s = .ok ([.char '\x7b'], s) := by
  cases s with
  | nil => rfl
  | cons c s =>
    have hne : ∀ a ∈ ['#', '%', '\x7b'], c ≠ a := fun a ha h => hs a ha (congrArg some h)
    have hkind : tagKind? c = none := by
      unfold tagKind?
      split
      · exact absurd rfl (hne '%' (by decide))
      · exact absurd rfl (hne '\x7b' (by decide))
      · rfl
    unfold piece
    split
    · next h => exact absurd (List.cons.inj h).1 (hne '#' (by decide))
    · next h =>
      obtain ⟨rfl, rfl⟩ := List.cons.inj h
      rw [hkind]
    · next h => exact absurd rfl (h _ _ rfl)

theorem byteLength_comment (comment : List Char) :
    byteLength ('\x7b' :: '#' :: (comment ++ ['#', '\x7d'])) = 2 + byteLength comment + 2 := by
  have hsplit : '\x7b' :: '#' :: (comment ++ ['#', '\x7d']) = ['\x7b', '#'] ++ (comment ++ ['#', '\x7d']) := rfl
  rw [hsplit, byteLength_append, byteLength_append, Nat.add_assoc]
  rfl

/-- The text behind the opening delimiter of a comment. -/
theorem slice?_comment (u r : List Char) : slice? (u ++ '\x7b' :: '#' :: r) (byteLength u + 2)
    (byteLength (u ++ '\x7b' :: '#' :: r)) = some r := by
  have hrest := Text.slice?_rest (u ++ ['\x7b', '#']) r
  rw [byteLength_append u, List.append_assoc] at hrest
  exact hrest

theorem braceRound_eq (u s : List Char) (tags : List FoundTag) :
    braceRound (u ++ '\x7b' :: s) (byteLength u) tags =
      some (takesPiece u tags (piece (1 + lineEnds u) '\x7b' s)) := by
  have hplace : byteLength u + 1 = byteLength (u ++ ['\x7b']) := (byteLength_append u ['\x7b']).symm
  have hnext : (octets (u ++ '\x7b' :: s))[byteLength u + 1]? = (octets s).head? := by
    rw [← List.head?_drop, List.append_cons, hplace, Text.drop_octets]
  have hascii : ∀ a ∈ ['#', '%', '\x7b'], a.toNat < 128 := by simp
  have hchar : (∀ a ∈ ['#', '%', '\x7b'], (octets s).head? ≠ some a) →
      (some (.again ⟨byteLength u + 1, tags⟩) : Option (Turn Scanning (Result (List FoundTag)))) =
        some (takesPiece u tags (piece (1 + lineEnds u) '\x7b' s)) := by
    intro hne
    rw [piece_brace]
    · dsimp only [takesPiece]
      rw [hplace]
      simp [Piece.source, foundTags]
    · exact fun a ha h => hne a ha ((Text.head?_octets_iff (hascii a ha)).2 h)
  unfold braceRound
  rw [hnext]
  cases hhead : (octets s).head? with
  | none => exact hchar fun a _ => hhead ▸ (Option.some_ne_none a).symm
  | some b =>
    dsimp only
    split
    · next hb =>
      subst hb
      obtain ⟨r, rfl⟩ := List.head?_eq_some_iff.1 ((Text.head?_octets_iff (by decide)).1 hhead)
      rw [slice?_comment]
      simp only [Option.bind_eq_bind, Option.bind_some]
      rw [piece_comment]
      cases Text.splitAtMark ['#', '\x7d'] r with
      | none => exact unterminatedAt_eq u _ tags "comment"
      | some x =>
        have hlength : byteLength u + 2 + byteLength x.1 + 2 =
            byteLength (u ++ '\x7b' :: '#' :: (x.1 ++ ['#', '\x7d'])) := by
          rw [byteLength_append, byteLength_comment]
          omega
        dsimp only [takesPiece]
        rw [hlength]
        simp [Piece.source, foundTags]
    · next hb =>
      cases hkind : tagKind? b with
      | none =>
        refine hchar fun a ha h => ?_
        rw [hhead] at h
        cases h
        simp only [List.mem_cons, List.not_mem_nil, or_false] at ha
        rcases ha with rfl | rfl | rfl
        · exact hb rfl
        · cases hkind
        · cases hkind
      | some kind =>
        obtain rfl := tagKind?_opens hkind
        obtain ⟨r, rfl⟩ := List.head?_eq_some_iff.1 ((Text.head?_octets_iff (by cases kind <;> decide)).1 hhead)
        exact tagRound_eq kind u r tags

/-- What the scanner has to come to from where it is. -/
def Scanning.Answers (src : List Char) (k : Scanning) (a : Result (List FoundTag)) : Prop :=
  ∃ u v, src = u ++ v ∧ byteLength u = k.place ∧
    a = (fun ps => k.tags ++ foundTags k.place ps) <$> scanFrom (1 + lineEnds u) v

theorem foundTags_chars (place : Nat) (w : List Char) : foundTags place (w.map .char) = [] := by
  induction w generalizing place with
  | nil => rfl
  | cons c w ih => exact ih _

theorem flatMap_chars (w : List Char) : (w.map Piece.char).flatMap Piece.source = w := by
  induction w with
  | nil => rfl
  | cons c w ih => exact congrArg (c :: ·) ih

theorem byteLength_pieces_pos {line : Nat} {c : Char} {rest : List Char} {qs : List Piece}
    (h : piece line c s = .ok (qs, rest)) : 0 < byteLength (qs.flatMap Piece.source) := by
  refine Nat.pos_of_ne_zero fun hzero => ?_
  have hsource := piece_source h
  have hless := piece_length_lt h
  rw [Text.eq_nil_of_byteLength hzero, List.nil_append] at hsource
  rw [hsource] at hless
  exact absurd hless (Nat.lt_irrefl _)

theorem scanRound_answers (k : Scanning) (a : Result (List FoundTag)) (h : k.Answers src a) :
    scanRound src k = some (.done a) ∨ ∃ k', scanRound src k = some (.again k') ∧ k'.Answers src a ∧
      byteLength src - k'.place < byteLength src - k.place := by
  obtain ⟨place, tags⟩ := k
  obtain ⟨u, v, rfl, rfl, rfl⟩ := h
  unfold scanRound
  rw [Text.slice?_rest]
  simp only [Option.bind_eq_bind, Option.bind_some]
  rcases Text.first_or_none (· == '\x7b') v with hnone | ⟨w, c, s, rfl, hw, hc⟩
  · refine .inl ?_
    have hscan := scanFrom_plain hnone (1 + lineEnds u) []
    rw [List.append_nil, scanFrom] at hscan
    rw [Text.find?_eq_none hnone, hscan]
    change _ = some (Turn.done (Except.ok (tags ++ foundTags (byteLength u) (v.map .char ++ []))))
    rw [List.append_nil, foundTags_chars, List.append_nil]
  · obtain rfl := eq_of_beq hc
    have hround := braceRound_eq (u ++ w) s tags
    rw [byteLength_append, List.append_assoc, lineEnds_append, ← Nat.add_assoc] at hround
    rw [Text.find?_eq_some hw hc]
    dsimp only
    rw [hround, scanFrom_plain hw]
    cases hpiece : piece (1 + lineEnds u + lineEnds w) '\x7b' s with
    | error e =>
      rw [scanFrom_refused hpiece]
      exact .inl rfl
    | ok p =>
      obtain ⟨qs, rest⟩ := p
      have hsource := piece_source hpiece
      have hlength := congrArg byteLength hsource
      have hpos := byteLength_pieces_pos hpiece
      refine .inr ⟨_, rfl, ⟨u ++ (w ++ qs.flatMap Piece.source), rest, ?_, ?_, ?_⟩, ?_⟩
      · rw [hsource, List.append_assoc, List.append_assoc]
      · rw [List.append_assoc]
      · have hline : 1 + lineEnds (u ++ (w ++ qs.flatMap Piece.source)) =
            1 + lineEnds u + lineEnds w + lineEnds (qs.flatMap Piece.source) := by
          rw [lineEnds_append, lineEnds_append]
          omega
        have hplace : byteLength (u ++ w ++ qs.flatMap Piece.source) =
            byteLength u + byteLength w + byteLength (qs.flatMap Piece.source) := by
          rw [byteLength_append, byteLength_append]
        rw [scanFrom_step hpiece, hline]
        cases scanFrom (1 + lineEnds u + lineEnds w + lineEnds (qs.flatMap Piece.source)) rest with
        | error e => rfl
        | ok more =>
          refine congrArg Except.ok ?_
          dsimp only
          rw [foundTags_append, foundTags_chars, flatMap_chars, List.nil_append, foundTags_append, hplace,
            byteLength_append, List.append_assoc]
      · dsimp only
        rw [byteLength_append] at hlength
        simp only [byteLength_append]
        omega

/-- The scanner comes to its end, is refused no slice, and finds the tags of the scanner of characters. -/
theorem scanAt_eq (src : List Char) : scanAt src = some (foundTags 0 <$> scan src) := by
  refine Text.rounds_eq (fun k => byteLength src - k.place) scanRound_answers ⟨[], src, rfl, rfl, rfl⟩ ?_
  rw [Text.length_octets]
  omega

/-! ### Where tags stand -/

/-- Between the places of the tag stands its source: an opening delimiter with its sign, the body, and a closing
delimiter with its sign. -/
structure FoundTag.StandsIn (src : List Char) (f : FoundTag) : Prop where
  nonempty : f.start < f.stop
  inside : f.stop ≤ byteLength src
  source : slice? src f.start f.stop = some ('\x7b' :: f.tag.kind.opens ::
    (f.tag.lead.source ++ (f.tag.body ++ (f.tag.trail.source ++ [f.tag.kind.closes, '\x7d']))))

theorem foundTags_stand {ps : List Piece} (hsrc : src = u ++ ps.flatMap Piece.source) :
    (foundTags (byteLength u) ps).Pairwise (fun f g => f.stop ≤ g.start) ∧
      ∀ f ∈ foundTags (byteLength u) ps, byteLength u ≤ f.start ∧ f.StandsIn src := by
  induction ps generalizing u with
  | nil => exact ⟨.nil, fun _ h => absurd h List.not_mem_nil⟩
  | cons q ps ih =>
    have hnext : src = (u ++ q.source) ++ ps.flatMap Piece.source := by
      rw [hsrc, List.flatMap_cons, List.append_assoc]
    obtain ⟨hapart, hstand⟩ := ih hnext
    rw [byteLength_append] at hapart hstand
    have hrest : ∀ f ∈ foundTags (byteLength u + byteLength q.source) ps, byteLength u ≤ f.start ∧ f.StandsIn src :=
      fun f hf => ⟨Nat.le_trans (Nat.le_add_right _ _) (hstand f hf).1, (hstand f hf).2⟩
    cases q with
    | char c => exact ⟨hapart, hrest⟩
    | hidden cs => exact ⟨hapart, hrest⟩
    | tag t =>
      have hpos : 0 < byteLength t.source := by
        refine Nat.pos_of_ne_zero fun hzero => ?_
        have := t.source_length_pos
        rw [Text.eq_nil_of_byteLength hzero] at this
        exact absurd this (Nat.lt_irrefl _)
      have hin := congrArg byteLength hnext
      rw [byteLength_append, byteLength_append] at hin
      change _ = byteLength u + byteLength t.source + _ at hin
      have htag : slice? src (byteLength u) (byteLength u + byteLength t.source) = some t.source :=
        Text.slice?_eq_some.2 ⟨u, ps.flatMap Piece.source, hsrc, rfl, rfl⟩
      refine ⟨List.pairwise_cons.2 ⟨fun g hg => (hstand g hg).1, hapart⟩, List.forall_mem_cons.2 ⟨⟨Nat.le_refl _, ?_⟩, hrest⟩⟩
      exact ⟨by dsimp only; omega, by dsimp only; omega, htag⟩

/-- The tags of a source stand in it one behind the other, each between its places. -/
theorem scanAt_stand {tags : List FoundTag} (h : scanAt src = some (.ok tags)) :
    tags.Pairwise (fun f g => f.stop ≤ g.start) ∧ ∀ f ∈ tags, f.StandsIn src := by
  rw [scanAt_eq] at h
  cases hscan : scan src with
  | error e =>
    rw [hscan] at h
    cases h
  | ok ps =>
    rw [hscan] at h
    cases h
    obtain ⟨hapart, hstand⟩ := foundTags_stand (u := []) (scanFrom_source hscan).symm
    exact ⟨hapart, fun f hf => (hstand f hf).2⟩

end SecureLayout.Template
