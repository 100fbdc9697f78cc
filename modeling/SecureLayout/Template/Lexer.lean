import SecureLayout.Numeric.Double
import SecureLayout.Numeric.Power
import SecureLayout.Template.Error
import SecureLayout.Template.Escape
import SecureLayout.Template.Tag
import SecureLayout.Template.Token

/-!
From the source of a template to its tokens. White space around tags is dropped here, by the signs at
the delimiters and by the two settings for blocks.
-/

namespace SecureLayout.Template

open Numeric

/-- White space around blocks. -/
structure BlockSpace where
  /-- A block or comment takes the line end after it along. -/
  trim : Bool
  /-- Indentation in front of a block that begins its line is dropped. -/
  strip : Bool
  deriving DecidableEq, Repr

/-- Settings that layouts are compiled with. -/
def BlockSpace.layout : BlockSpace := ⟨true, true⟩

/-- A tag as the lexer comes upon it. -/
structure SeenTag where
  kind : TagKind
  /-- Octets of the source in front of it. -/
  start : Nat
  /-- Octets of the source up to its end, once that is reached. -/
  stop : Option Nat := none
  /-- Its words, as far as they are read. -/
  words : List Token := []
  deriving DecidableEq, Repr

/-- Tokens up to the end or to the first fault, and the tags that they were found in. The tag in front of
a raw section is among them, the one behind it is not. -/
structure Tokens where
  tokens : List Spanned
  fault : Option Error := none
  tags : List SeenTag := []
  deriving DecidableEq, Repr

/-- Between two tags, or inside a tag of a kind with some open brackets. -/
inductive LexerMode where
  | text
  | code (kind : TagKind) (depth : Nat)
  deriving DecidableEq, Repr

structure Lexer where
  rest : List Char
  line : Nat := 1
  /-- Nothing but blanks stands before on this line. -/
  blankLine : Bool := true
  mode : LexerMode := .text
  /-- The tag before drops blanks that follow it. -/
  dropBlanks : Bool := false
  /-- Octets that were read. -/
  offset : Nat := 0
  /-- Tags that were come upon, the last one first. -/
  seen : List SeenTag := []
  deriving DecidableEq, Repr

/-- What one step of the lexer does. -/
inductive LexerStep where
  | done (tokens : List Spanned)
  | fault (tokens : List Spanned) (e : Error)
  | goOn (tokens : List Spanned) (l : Lexer)

namespace Lexer

/-- A line is blank so long as it holds blanks only. -/
def isBlankAfter (blank : Bool) : List Char → Bool
  | [] => blank
  | c :: r => isBlankAfter (if Text.isLineEnd c then true else blank && Text.isBlank c) r

/-- Consumes `taken`; `rest` is what follows it. -/
def advance (l : Lexer) (taken rest : List Char) : Lexer :=
  { l with
    rest
    line := l.line + lineEnds taken
    blankLine := isBlankAfter l.blankLine taken
    offset := l.offset + Text.byteLength taken }

/-- Consumes the first `n` characters. -/
def take (l : Lexer) (n : Nat) : Lexer :=
  l.advance (l.rest.take n) (l.rest.drop n)

def syntaxFault (l : Lexer) (detail : String) : Error :=
  { kind := .syntaxError, detail := some detail, site := some ⟨"", l.line⟩ }

def spanned (l : Lexer) (t : Token) : Spanned := ⟨t, l.line⟩

/-- How many characters the line end at the beginning takes. -/
def lineEndLength : List Char → Nat
  | '\r' :: '\n' :: _ => 2
  | '\r' :: _ => 1
  | '\n' :: _ => 1
  | _ => 0

def skipLineEnd (l : Lexer) : Lexer :=
  l.take (lineEndLength l.rest)

/-- After a block or comment that ends with a sign. -/
def afterBlock (space : BlockSpace) (l : Lexer) : Mark → Lexer
  | .none => if space.trim then l.skipLineEnd else l
  | .plus => l
  | .minus => { l with dropBlanks := true }

/-- Where the next tag or comment begins: the text before it, the character after its brace, and the
rest after both. -/
def nextOpener : List Char → List Char × Option (Char × List Char)
  | [] => ([], none)
  | '\x7b' :: c :: r =>
    if c = '\x7b' || c = '%' || c = '#' then ([], some (c, r))
    else
      let (lead, o) := nextOpener (c :: r)
      ('\x7b' :: lead, o)
  | c :: r =>
    let (lead, o) := nextOpener r
    (c :: lead, o)

/-- Indentation at the end of a text. -/
def withoutIndent (s : List Char) : List Char :=
  Text.dropTail (fun c => Text.isBlank c && !Text.isLineEnd c) s

/-- The text in front of a tag, as the sign and the settings leave it. -/
def leadText (space : BlockSpace) (isExpr : Bool) (blankBefore : Bool) (lead : List Char) : Mark → List Char
  | .minus => Text.trimEnd lead
  | .plus => lead
  | .none =>
    if space.strip && !isExpr && isBlankAfter blankBefore lead then withoutIndent lead else lead

/-- A name with token blanks around it and the delimiter of a block: the sign at the end and the rest. -/
def bareTag? (name : List Char) (s : List Char) : Option (Mark × List Char) := do
  let s ← Text.stripStart name (s.dropWhile Text.isTokenBlank)
  let (mark, s) := leadMark (s.dropWhile Text.isTokenBlank)
  return (mark, ← Text.stripStart ['%', '\x7d'] s)

/-- A raw section up to its end: its text, the signs of the ending tag, and the rest. -/
def rawEnd? : List Char → Option (List Char × Mark × Mark × List Char)
  | [] => none
  | '\x7b' :: '%' :: s =>
    let (lead, inner) := leadMark s
    match bareTag? "endraw".toList inner with
    | some (trail, rest) => some ([], lead, trail, rest)
    | none =>
      match rawEnd? s with
      | some (text, lead, trail, rest) => some ('\x7b' :: '%' :: text, lead, trail, rest)
      | none => none
  | c :: s =>
    match rawEnd? s with
    | some (text, lead, trail, rest) => some (c :: text, lead, trail, rest)
    | none => none

/-- The text of a raw section, as the signs and the settings leave it. -/
def rawText (space : BlockSpace) (blankBefore : Bool) (before after : Mark) (text : List Char) : List Char :=
  let text' := match before with
    | .none => if space.trim then text.drop (lineEndLength text) else text
    | .minus => Text.trimStart text
    | .plus => text
  match after with
  | .none => if space.strip && isBlankAfter blankBefore text then withoutIndent text' else text'
  | .minus => Text.trimEnd text'
  | .plus => text'

/-- A comment after its opener, up to its end: the sign before the end and the rest. -/
def commentEnd? (s : List Char) : Option (Mark × List Char × List Char) :=
  match Text.splitAtMark ['#', '\x7d'] s with
  | none => none
  | some (text, rest) =>
    let mark := match text.getLast? with
      | some '-' => Mark.minus
      | some '+' => Mark.plus
      | _ => Mark.none
    some (mark, text ++ ['#', '\x7d'], rest)

/-- Goes into a tag that begins behind `start` octets. -/
def enter (l : Lexer) (kind : TagKind) (start : Nat) : Lexer :=
  { l with mode := .code kind 0, seen := { kind, start } :: l.seen }

/-- The step at a brace: `l` stands after the opening delimiter and its sign. -/
def atOpener (space : BlockSpace) (tokens : List Spanned) (start : Lexer) (opener : Char) (l : Lexer) :
    LexerStep :=
  if opener = '#' then
    match commentEnd? l.rest with
    | none => .fault tokens (start.syntaxFault "unexpected end of comment")
    | some (mark, taken, rest) => .goOn tokens (afterBlock space (l.advance taken rest) mark)
  else if opener = '%' then
    match bareTag? "raw".toList l.rest with
    | some (before, rest) =>
      let l := l.advance (l.rest.take (l.rest.length - rest.length)) rest
      match rawEnd? rest with
      | none => .fault tokens (l.syntaxFault "unexpected end of raw block")
      | some (text, after, trail, rest') =>
        let data := rawText space l.blankLine before after text
        let opener : SeenTag :=
          { kind := .block, start := start.offset, stop := some l.offset, words := [.name "raw"] }
        let l' := { l.advance (rest.take (rest.length - rest'.length)) rest' with seen := opener :: l.seen }
        .goOn (tokens ++ [l.spanned (.data (String.ofList data))]) (afterBlock space l' trail)
    | none => .goOn (tokens ++ [start.spanned .blockStart]) (l.enter .block start.offset)
  else .goOn (tokens ++ [start.spanned .exprStart]) (l.enter .expr start.offset)

/-- A step between tags. -/
def textStep (space : BlockSpace) (l : Lexer) : LexerStep :=
  let l := if l.dropBlanks then
      { l.take (l.rest.takeWhile Text.isBlank).length with dropBlanks := false }
    else l
  match nextOpener l.rest with
  | (lead, none) =>
    .done (if lead.isEmpty then [] else [l.spanned (.data (String.ofList lead))])
  | (lead, some (opener, rest)) =>
    let (mark, inner) := leadMark rest
    let text := leadText space (opener == '\x7b') l.blankLine lead mark
    let tokens := if text.isEmpty then [] else [l.spanned (.data (String.ofList text))]
    let start := l.advance lead ('\x7b' :: opener :: rest)
    atOpener space tokens start opener (start.advance ('\x7b' :: opener :: mark.source) inner)

/-! ### Inside tags -/

/-- A symbol at the beginning: two characters before one. -/
def symbol? : List Char → Option (Symbol × Nat)
  | '/' :: '/' :: _ => some (.floor, 2)
  | '*' :: '*' :: _ => some (.power, 2)
  | '=' :: '=' :: _ => some (.eq, 2)
  | '!' :: '=' :: _ => some (.ne, 2)
  | '>' :: '=' :: _ => some (.ge, 2)
  | '<' :: '=' :: _ => some (.le, 2)
  | c :: _ =>
    match c with
    | '+' => some (.plus, 1)
    | '-' => some (.minus, 1)
    | '*' => some (.times, 1)
    | '/' => some (.slash, 1)
    | '%' => some (.percent, 1)
    | '!' => some (.bang, 1)
    | '.' => some (.dot, 1)
    | ',' => some (.comma, 1)
    | ':' => some (.colon, 1)
    | '~' => some (.tilde, 1)
    | '|' => some (.pipe, 1)
    | '=' => some (.assign, 1)
    | '>' => some (.gt, 1)
    | '<' => some (.lt, 1)
    | '(' => some (.parenOpen, 1)
    | ')' => some (.parenClose, 1)
    | '[' => some (.bracketOpen, 1)
    | ']' => some (.bracketClose, 1)
    | '\x7b' => some (.braceOpen, 1)
    | '\x7d' => some (.braceClose, 1)
    | _ => none
  | [] => none

/-- The inside of a string literal after its quote, and the rest after the closing one. -/
def stringBody? (q : Char) : Bool → List Char → Option (List Char × List Char)
  | _, [] => none
  | true, c :: r => (stringBody? q false r).map fun (s, r) => (c :: s, r)
  | false, c :: r =>
    if c = '\\' then (stringBody? q true r).map fun (s, r) => (c :: s, r)
    else if c = q then some ([], r)
    else (stringBody? q false r).map fun (s, r) => (c :: s, r)

/-- How far a number is read. -/
inductive NumberPart where
  | radix (base : Nat)
  | whole
  | fraction
  | exponent
  | exponentDigits
  deriving DecidableEq, Repr

/-- The part after one more character, if it belongs to the number. -/
def NumberPart.next? : NumberPart → Char → Option NumberPart
  | p, '_' => some p
  | whole, '.' => some fraction
  | whole, 'e' => some exponent
  | whole, 'E' => some exponent
  | fraction, 'e' => some exponent
  | fraction, 'E' => some exponent
  | exponent, '+' => some exponentDigits
  | exponent, '-' => some exponentDigits
  | exponent, c => if c.isDigit then some exponentDigits else none
  | radix b, c =>
    if c.isDigit || (b == 16 && (hexDigit? c).isSome) then some (radix b) else none
  | p, c => if c.isDigit then some p else none

/-- The characters of a number, and the part it ends in. -/
def numberText (p : NumberPart) : List Char → List Char × NumberPart
  | [] => ([], p)
  | c :: r =>
    match p.next? c with
    | none => ([], p)
    | some p' =>
      let (cs, last) := numberText p' r
      (c :: cs, last)

def digitsIn? (base : Nat) (cs : List Char) : Option Nat :=
  if cs.isEmpty then none
  else cs.foldlM (fun n c =>
    match hexDigit? c with
    | some d => if d < base then some (base * n + d) else none
    | none => none) 0

/-- The digits after a point, if there is one, and what follows. -/
def fraction : List Char → List Char × List Char
  | '.' :: r => (r.takeWhile Char.isDigit, r.dropWhile Char.isDigit)
  | r => ([], r)

/-- The exponent that ends a number; none counts as zero. -/
def exponent? : List Char → Option Int
  | [] => some 0
  | e :: r =>
    if e = 'e' || e = 'E' then
      match r with
      | '-' :: r => (digitsIn? 10 r).map fun n => -(n : Int)
      | '+' :: r => (digitsIn? 10 r).map fun n => (n : Int)
      | r => (digitsIn? 10 r).map fun n => (n : Int)
    else none

/-- A decimal number with a fraction or an exponent. -/
def float? (cs : List Char) : Option Double :=
  let whole := cs.takeWhile Char.isDigit
  let (fraction, r) := fraction (cs.dropWhile Char.isDigit)
  match exponent? r, digitsIn? 10 (whole ++ fraction) with
  | some e, some m =>
    let e := e - (fraction.length : Int)
    -- Beyond these exponents the nearest double is zero or infinite.
    if 400 < e then some (if m = 0 then .zero else .infinity)
    else if e < -((whole.length + fraction.length : Nat) : Int) - 400 then some .zero
    else some (Double.ofScientific m e)
  | _, _ => none

/-- Integers are words of 128 bits. -/
def integerLimit : Nat := Numeric.twoTo 128

def integer (base : Nat) (digits : List Char) : Except String Token :=
  match digitsIn? base digits with
  | some n => if n < integerLimit then .ok (.int n) else .error "invalid integer (too large)"
  | none => .error "invalid integer (too large)"

/-- The token of a number that was read up to a part, or the complaint. -/
def numberToken (base : Nat) (cs : List Char) (last : NumberPart) : Except String Token :=
  let digits := cs.filter (· != '_')
  if cs.getLast? = some '_' then .error "'_' may not occur at end of number"
  else
    match last with
    | .radix _ => integer base digits
    | .whole => integer base digits
    | _ =>
      match float? digits with
      | some x => .ok (.float x)
      | none => .error "invalid float"

/-- The base of a number, the part it begins with, and how many characters say so. -/
def numberHead : List Char → Nat × NumberPart × Nat
  | '0' :: c :: _ =>
    if c = 'b' || c = 'B' then (2, .radix 2, 2)
    else if c = 'o' || c = 'O' then (8, .radix 8, 2)
    else if c = 'x' || c = 'X' then (16, .radix 16, 2)
    else (10, .whole, 0)
  | _ => (10, .whole, 0)

/-- A number at the beginning: its token or the complaint, and how many characters it takes. -/
def number (s : List Char) : Except String Token × Nat :=
  let (base, part, skip) := numberHead s
  let (cs, last) := numberText part (s.drop skip)
  (numberToken base cs last, skip + cs.length)

/-- A word at the beginning: its token or the fault, and how many characters it takes. -/
def word (l : Lexer) : Except Error Token × Nat :=
  match symbol? l.rest with
  | some (s, n) => (.ok (.symbol s), n)
  | none =>
    match l.rest with
    | [] => (.error (l.syntaxFault "unexpected character"), 0)
    | c :: r =>
      if c = '"' || c = '\'' then
        match stringBody? c false r with
        | none => (.error (l.syntaxFault "unexpected end of string"), 0)
        | some (body, _) =>
          match unescaped? body with
          | some s => (.ok (.string s), body.length + 2)
          | none => (.error { kind := .badEscape }, body.length + 2)
      else if c.isDigit then
        let (token, n) := number l.rest
        (match token with
          | .ok t => .ok t
          | .error detail => .error ((l.take n).syntaxFault detail), n)
      else if Text.isNameStart c then
        let name := l.rest.takeWhile Text.isNamePart
        (.ok (.name (String.ofList name)), name.length)
      else (.error (l.syntaxFault "unexpected character"), 0)

def endToken : TagKind → Token
  | .block => .blockEnd
  | .expr => .exprEnd

/-- Goes out of the tag that was come upon last. -/
def leave (l : Lexer) : Lexer :=
  { l with mode := .text, seen := l.seen.modifyHead fun t => { t with stop := some l.offset } }

/-- A word of the tag that was come upon last. -/
def noteWord (l : Lexer) (word : Token) : Lexer :=
  { l with seen := l.seen.modifyHead fun t => { t with words := t.words ++ [word] } }

/-- A step inside a tag. -/
def codeStep (space : BlockSpace) (kind : TagKind) (depth : Nat) (l : Lexer) : LexerStep :=
  let l := l.take (l.rest.takeWhile Text.isTokenBlank).length
  if l.rest.isEmpty then .done []
  else
    match if depth = 0 then closing? kind l.rest else none with
    | some (mark, rest) =>
      let tokens := [l.spanned (endToken kind)]
      let l' := (l.advance (mark.source ++ [kind.closes, '\x7d']) rest).leave
      match kind with
      | .block => .goOn tokens (afterBlock space l' mark)
      | .expr => .goOn tokens { l' with dropBlanks := mark == .minus }
    | none =>
      match word l with
      | (.error e, _) => .fault [] e
      | (.ok t, n) =>
        let depth := match t with
          | .symbol _ => bracketDepth depth (l.rest.head?.getD ' ')
          | _ => depth
        .goOn [l.spanned t] ({ l.take n with mode := .code kind depth }.noteWord t)

def step (space : BlockSpace) (l : Lexer) : LexerStep :=
  match l.mode with
  | .text => textStep space l
  | .code kind depth => codeStep space kind depth l

/-- Steps until the end; every step but the last takes a character away. -/
def run (space : BlockSpace) : Nat → Lexer → Tokens
  | 0, l => ⟨[], some (l.syntaxFault "unexpected character"), l.seen.reverse⟩
  | fuel + 1, l =>
    match step space l with
    | .done tokens => ⟨tokens, none, l.seen.reverse⟩
    | .fault tokens e => ⟨tokens, some e, l.seen.reverse⟩
    | .goOn tokens l' =>
      let more := run space fuel l'
      { more with tokens := tokens ++ more.tokens }

end Lexer

/-- A source without the line end it ends with. -/
def withoutLastLineEnd (s : List Char) : List Char :=
  let r := match s.reverse with
    | '\n' :: r => r
    | r => r
  match r with
  | '\r' :: r => r.reverse
  | r => r.reverse

/-- The tokens of a template. -/
def tokenize (space : BlockSpace) (source : List Char) : Tokens :=
  let s := withoutLastLineEnd source
  Lexer.run space (s.length + 1) { rest := s }

end SecureLayout.Template
