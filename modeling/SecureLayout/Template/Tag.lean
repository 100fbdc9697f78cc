import SecureLayout.Failure
import SecureLayout.Text.Blank

/-!
Tags of a layout source. `scan` cuts a source into tags, hidden stretches (comments and raw sections)
and plain characters. Main statement: the pieces put together again are the source.
-/

namespace SecureLayout.Template

/-- Whitespace control beside a delimiter. -/
inductive Mark where
  | none
  | minus
  | plus
  deriving DecidableEq, Repr

def Mark.source : Mark → List Char
  | none => []
  | minus => ['-']
  | plus => ['+']

inductive TagKind where
  | block
  | expr
  deriving DecidableEq, Repr

namespace TagKind

/-- The character that stands inside the braces of this kind, on both sides. -/
def opens : TagKind → Char
  | block => '%'
  | expr => '\x7b'

def closes : TagKind → Char
  | block => '%'
  | expr => '\x7d'

end TagKind

structure Tag where
  kind : TagKind
  lead : Mark
  body : List Char
  trail : Mark
  deriving DecidableEq, Repr

namespace Tag

def source (t : Tag) : List Char :=
  '\x7b' :: t.kind.opens ::
    (t.lead.source ++ (t.body ++ (t.trail.source ++ [t.kind.closes, '\x7d'])))

/-- The name a tag begins with. -/
def keyword (t : Tag) : List Char :=
  (Text.trimStart t.body).takeWhile Text.isNamePart

/-- What comes after the keyword. -/
def args (t : Tag) : List Char :=
  (Text.trimStart t.body).dropWhile Text.isNamePart

end Tag

/-- Names that begin so belong to the expansion of layouts. -/
def reservedBeginning : List Char := "__lg_".toList

/-! ### Reading one tag -/

/-- The sign after an opening delimiter, and what follows. -/
def leadMark : List Char → Mark × List Char
  | '-' :: s => (.minus, s)
  | '+' :: s => (.plus, s)
  | s => (.none, s)

/-- A closing delimiter at the beginning, with the sign before it. -/
def closing? (kind : TagKind) : List Char → Option (Mark × List Char)
  | '-' :: c :: '\x7d' :: s => if c = kind.closes then some (.minus, s) else none
  | '+' :: c :: '\x7d' :: s => if c = kind.closes then some (.plus, s) else none
  | c :: '\x7d' :: s => if c = kind.closes then some (.none, s) else none
  | _ => none

/-- Where a reader of a tag is: inside a string with its quote, or outside at some depth of brackets. -/
inductive Inside where
  | string (quote : Char) (escaped : Bool)
  | code
  deriving DecidableEq, Repr

namespace Inside

def isQuote (c : Char) : Bool := c == '"' || c == '\''

/-- The state after one more character. -/
def next : Inside → Char → Inside
  | string q true, _ => string q false
  | string q false, c => if c = '\\' then string q true else if c = q then code else string q false
  | code, c => if isQuote c then string c false else code

end Inside

/-- The depth of brackets after a character outside strings. -/
def bracketDepth (depth : Nat) (c : Char) : Nat :=
  if c = '(' || c = '[' || c = '\x7b' then depth + 1
  else if c = ')' || c = ']' || c = '\x7d' then depth - 1
  else depth

/-- The body of a tag up to the first closing delimiter outside strings and brackets. -/
def body? (kind : TagKind) : Inside → Nat → List Char → Option (List Char × Mark × List Char)
  | _, _, [] => none
  | .string q e, depth, c :: s =>
    (body? kind (Inside.next (.string q e) c) depth s).map fun (b, r) => (c :: b, r)
  | .code, depth, c :: s =>
    match if depth = 0 then closing? kind (c :: s) else none with
    | some (mark, rest) => some ([], mark, rest)
    | none =>
      (body? kind (Inside.next .code c) (bracketDepth depth c) s).map fun (b, r) => (c :: b, r)

/-- The tag after an opening delimiter, and what follows it. -/
def tag? (kind : TagKind) (s : List Char) : Option (Tag × List Char) :=
  let (lead, s) := leadMark s
  (body? kind .code 0 s).map fun (body, trail, rest) => (⟨kind, lead, body, trail⟩, rest)

/-! ### Reserved names -/

/-- What a reader of names is in; letters of a name are reversed. -/
inductive Naming where
  | outside (at_ : Inside)
  | name (letters : List Char)
  | number

namespace Naming

/-- Begins to read at a character outside names. -/
def start (c : Char) : Naming :=
  if Text.isNameStart c then name [c]
  else if c.isDigit then number
  else outside (Inside.next .code c)

/-- A finished name, if it is reserved. -/
def reserved? : Naming → Option (List Char)
  | name letters =>
    if (Text.stripStart reservedBeginning letters.reverse).isSome then some letters.reverse else none
  | _ => none

end Naming

/-- The first reserved name outside strings. Letters after digits belong to a number. -/
def reservedName? : Naming → List Char → Option (List Char)
  | n, [] => n.reserved?
  | .outside (.string q e), c :: s => reservedName? (.outside (Inside.next (.string q e) c)) s
  | .outside .code, c :: s => reservedName? (Naming.start c) s
  | .number, c :: s => reservedName? (if Text.isNamePart c then .number else Naming.start c) s
  | .name letters, c :: s =>
    if Text.isNamePart c then reservedName? (.name (c :: letters)) s
    else
      match (Naming.name letters).reserved? with
      | some n => some n
      | none => reservedName? (Naming.start c) s

def Tag.reserved? (t : Tag) : Option (List Char) :=
  reservedName? (.outside .code) t.body

/-! ### Raw sections -/

/-- The rest after a tag that ends a raw section, if one stands here. Any blanks may surround its name. -/
def afterEndRaw? (s : List Char) : Option (List Char) := do
  let s ← Text.stripStart ['\x7b', '%'] s
  let s := Text.trimStart (leadMark s).2
  let s ← Text.stripStart "endraw".toList s
  Text.stripStart ['%', '\x7d'] (leadMark (Text.trimStart s)).2

/-- A raw section with the tag that ends it, and what follows. -/
def rawSection? : List Char → Option (List Char × List Char)
  | [] => none
  | c :: s =>
    match afterEndRaw? (c :: s) with
    | some rest => some ((c :: s).take ((c :: s).length - rest.length), rest)
    | none => (rawSection? s).map fun (section_, rest) => (c :: section_, rest)

/-! ### Scanning -/

inductive Piece where
  | char (c : Char)
  /-- A comment or a raw section. -/
  | hidden (cs : List Char)
  | tag (t : Tag)
  deriving DecidableEq, Repr

def Piece.source : Piece → List Char
  | char c => [c]
  | hidden cs => cs
  | tag t => t.source

/-- Lines that end in a stretch of text. -/
def lineEnds (cs : List Char) : Nat :=
  cs.count '\n'

def unterminated {α : Type} (line : Nat) (what : String) : Result α :=
  .error (.badSyntax ("unterminated " ++ what) (some line))

/-- The kind of a tag by the character after its opening brace. -/
def tagKind? : Char → Option TagKind
  | '%' => some .block
  | '\x7b' => some .expr
  | _ => none

/-- One piece of a source that is not empty, and what follows it; `line` counts from one. A raw tag
takes the piece after it along. -/
def piece (line : Nat) : Char → List Char → Result (List Piece × List Char)
  | '\x7b', '#' :: s =>
    match Text.splitAtMark ['#', '\x7d'] s with
    | some (comment, rest) => .ok ([.hidden ('\x7b' :: '#' :: (comment ++ ['#', '\x7d']))], rest)
    | none => unterminated line "comment"
  | '\x7b', c :: s =>
    match tagKind? c with
    | none => .ok ([.char '\x7b'], c :: s)
    | some kind =>
      match tag? kind s with
      | none => unterminated line "tag"
      | some (t, rest) =>
        match t.reserved? with
        | some name =>
          .error (.badSyntax ("identifier " ++ String.ofList name ++ " is reserved") (some line))
        | none =>
          if t.kind = .block && t.keyword = "raw".toList then
            match rawSection? rest with
            | some (section_, rest) => .ok ([.tag t, .hidden section_], rest)
            | none => unterminated line "raw block"
          else .ok ([.tag t], rest)
  | c, s => .ok ([.char c], s)

/-! ### Pieces make up the source -/

theorem leadMark_source (s : List Char) : (leadMark s).1.source ++ (leadMark s).2 = s := by
  unfold leadMark
  split <;> simp [Mark.source]

theorem closing?_source {kind : TagKind} {s rest : List Char} {mark : Mark}
    (h : closing? kind s = some (mark, rest)) :
    s = mark.source ++ kind.closes :: '\x7d' :: rest := by
  unfold closing? at h
  split at h
  all_goals first
    | (split at h
       · next hc =>
         simp only [Option.some.injEq, Prod.mk.injEq] at h
         obtain ⟨rfl, rfl⟩ := h
         simp [Mark.source, hc]
       · simp at h)
    | simp at h

theorem body?_source {kind : TagKind} {i : Inside} {depth : Nat} {s b rest : List Char} {mark : Mark}
    (h : body? kind i depth s = some (b, mark, rest)) :
    s = b ++ (mark.source ++ kind.closes :: '\x7d' :: rest) := by
  induction s generalizing i depth b with
  | nil => cases i <;> simp [body?] at h
  | cons c s ih =>
    cases i with
    | string q e =>
      simp only [body?, Option.map_eq_some_iff, Prod.exists, Prod.mk.injEq] at h
      obtain ⟨b', m, r, hb, rfl, rfl, rfl⟩ := h
      simp [ih hb]
    | code =>
      unfold body? at h
      split at h
      · next mark' rest' hc =>
        simp only [Option.some.injEq, Prod.mk.injEq] at h
        obtain ⟨rfl, rfl, rfl⟩ := h
        split at hc
        · simpa using closing?_source hc
        · simp at hc
      · simp only [Option.map_eq_some_iff, Prod.exists, Prod.mk.injEq] at h
        obtain ⟨b', m, r, hb, rfl, rfl, rfl⟩ := h
        simp [ih hb]

theorem tag?_source {kind : TagKind} {s rest : List Char} {t : Tag} (h : tag? kind s = some (t, rest)) :
    '\x7b' :: kind.opens :: s = t.source ++ rest := by
  simp only [tag?, Option.map_eq_some_iff, Prod.exists, Prod.mk.injEq] at h
  obtain ⟨b, m, r, hb, rfl, rfl⟩ := h
  have e : s = (leadMark s).1.source ++ (b ++ (m.source ++ kind.closes :: '\x7d' :: r)) := by
    rw [← body?_source hb, leadMark_source]
  simpa [Tag.source] using e

theorem leadMark_suffix (s : List Char) : (leadMark s).2 <:+ s :=
  ⟨(leadMark s).1.source, leadMark_source s⟩

theorem stripStart_suffix {p s r : List Char} (h : Text.stripStart p s = some r) : r <:+ s :=
  ⟨p, (Text.stripStart_eq_some h).symm⟩

theorem afterEndRaw?_suffix {s r : List Char} (h : afterEndRaw? s = some r) : r <:+ s := by
  simp only [afterEndRaw?, Option.bind_eq_bind, Option.bind_eq_some_iff] at h
  obtain ⟨s1, h1, s2, h2, h3⟩ := h
  have e1 := stripStart_suffix h1
  have e2 := stripStart_suffix h2
  have e3 := stripStart_suffix h3
  exact e3.trans ((leadMark_suffix _).trans ((Text.trimStart_suffix _).trans
    (e2.trans ((Text.trimStart_suffix _).trans ((leadMark_suffix _).trans e1)))))

theorem rawSection?_source {s section_ rest : List Char} (h : rawSection? s = some (section_, rest)) :
    s = section_ ++ rest := by
  induction s generalizing section_ with
  | nil => simp [rawSection?] at h
  | cons c s ih =>
    unfold rawSection? at h
    split at h
    · next r hr =>
      simp only [Option.some.injEq, Prod.mk.injEq] at h
      obtain ⟨rfl, rfl⟩ := h
      obtain ⟨t, ht⟩ := afterEndRaw?_suffix hr
      have hl : (c :: s).length - r.length = t.length := by
        rw [← ht]; simp
      rw [hl, ← ht]
      simp
    · simp only [Option.map_eq_some_iff, Prod.exists, Prod.mk.injEq] at h
      obtain ⟨s', r, hs, rfl, rfl⟩ := h
      simp [ih hs]

theorem splitAtMark_source {mark s l r : List Char} (h : Text.splitAtMark mark s = some (l, r)) :
    s = l ++ (mark ++ r) := by
  induction s generalizing l with
  | nil =>
    simp only [Text.splitAtMark, Option.map_eq_some_iff, Prod.mk.injEq] at h
    obtain ⟨r', hr, rfl, rfl⟩ := h
    simpa using Text.stripStart_eq_some hr
  | cons c s ih =>
    unfold Text.splitAtMark at h
    split at h
    · next hr =>
      simp only [Option.some.injEq, Prod.mk.injEq] at h
      obtain ⟨rfl, rfl⟩ := h
      simpa using Text.stripStart_eq_some hr
    · simp only [Option.map_eq_some_iff, Prod.exists, Prod.mk.injEq] at h
      obtain ⟨l', r', hl, rfl, rfl⟩ := h
      simp [ih hl]

theorem tagKind?_opens {c : Char} {kind : TagKind} (h : tagKind? c = some kind) : kind.opens = c := by
  unfold tagKind? at h
  split at h <;> simp_all [TagKind.opens]
  all_goals subst h; rfl

theorem piece_source {line : Nat} {c : Char} {s rest : List Char} {ps : List Piece}
    (h : piece line c s = .ok (ps, rest)) : c :: s = ps.flatMap Piece.source ++ rest := by
  unfold piece at h
  split at h
  · split at h
    · next hs =>
      simp only [Except.ok.injEq, Prod.mk.injEq] at h
      obtain ⟨rfl, rfl⟩ := h
      simp [Piece.source, splitAtMark_source hs]
    · simp [unterminated] at h
  · split at h
    · simp only [Except.ok.injEq, Prod.mk.injEq] at h
      obtain ⟨rfl, rfl⟩ := h
      simp [Piece.source]
    · next hk =>
      split at h
      · simp [unterminated] at h
      · next ht =>
        have hsrc := tag?_source ht
        rw [tagKind?_opens hk] at hsrc
        split at h
        · simp at h
        · split at h
          · split at h
            · next hr =>
              simp only [Except.ok.injEq, Prod.mk.injEq] at h
              obtain ⟨rfl, rfl⟩ := h
              rw [hsrc, rawSection?_source hr]
              simp [Piece.source]
            · simp [unterminated] at h
          · simp only [Except.ok.injEq, Prod.mk.injEq] at h
            obtain ⟨rfl, rfl⟩ := h
            simp [Piece.source, hsrc]
  · simp only [Except.ok.injEq, Prod.mk.injEq] at h
    obtain ⟨rfl, rfl⟩ := h
    simp [Piece.source]

theorem Tag.source_length_pos (t : Tag) : 0 < t.source.length := by
  simp [Tag.source]

theorem piece_length_lt {line : Nat} {c : Char} {s rest : List Char} {ps : List Piece}
    (h : piece line c s = .ok (ps, rest)) : rest.length < (c :: s).length := by
  have hs := congrArg List.length (piece_source h)
  have hp : 0 < (ps.flatMap Piece.source).length := by
    unfold piece at h
    split at h
    · split at h
      · simp only [Except.ok.injEq, Prod.mk.injEq] at h
        obtain ⟨rfl, rfl⟩ := h
        simp [Piece.source]
      · simp [unterminated] at h
    · split at h
      · simp only [Except.ok.injEq, Prod.mk.injEq] at h
        obtain ⟨rfl, rfl⟩ := h
        simp [Piece.source]
      · split at h
        · simp [unterminated] at h
        · next t r ht =>
          have := t.source_length_pos
          split at h
          · simp at h
          · split at h
            · split at h
              · simp only [Except.ok.injEq, Prod.mk.injEq] at h
                obtain ⟨rfl, rfl⟩ := h
                simp [Piece.source]
                omega
              · simp [unterminated] at h
            · simp only [Except.ok.injEq, Prod.mk.injEq] at h
              obtain ⟨rfl, rfl⟩ := h
              simpa [Piece.source] using this
    · simp only [Except.ok.injEq, Prod.mk.injEq] at h
      obtain ⟨rfl, rfl⟩ := h
      simp [Piece.source]
  rw [List.length_append] at hs
  omega

/-- Every piece of a source from the given line on. -/
def scanFrom (line : Nat) : List Char → Result (List Piece)
  | [] => .ok []
  | c :: s =>
    match h : piece line c s with
    | .error e => .error e
    | .ok (ps, rest) =>
      have := piece_length_lt h
      match scanFrom (line + lineEnds (ps.flatMap Piece.source)) rest with
      | .error e => .error e
      | .ok more => .ok (ps ++ more)
termination_by s => s.length
decreasing_by exact this

def scan (s : List Char) : Result (List Piece) :=
  scanFrom 1 s

/-- The tags among pieces, in order. -/
def tagsOf (ps : List Piece) : List Tag :=
  ps.filterMap fun
    | .tag t => some t
    | _ => none

theorem scanFrom_source {line : Nat} {s : List Char} {ps : List Piece}
    (h : scanFrom line s = .ok ps) : ps.flatMap Piece.source = s := by
  fun_induction scanFrom line s generalizing ps with
  | case1 => simp at h; subst h; rfl
  | case2 => simp at h
  | case3 => simp_all
  | case4 line c s qs rest hp _ more hm ih =>
    simp only [Except.ok.injEq] at h
    subst h
    simp [piece_source hp, ih hm]

end SecureLayout.Template
