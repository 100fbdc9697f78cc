/-!
Places in a YAML text, the character classes of YAML, and scalars: plain words, quoted texts and blocks. Every line end
is read as one line feed, except the two separators of Unicode, which stay themselves; inside a plain or quoted scalar
it reads as one space, and every empty line after it as a line feed.
-/

namespace SecureLayout.Yaml

/-- Characters that a YAML text may hold. -/
def isPrintable (c : Char) : Bool :=
  let n := c.toNat
  n == 0x09 || n == 0x0A || n == 0x0D || (0x20 ≤ n && n ≤ 0x7E) || n == 0x85 ||
    (0xA0 ≤ n && n ≤ 0xD7FF) || (0xE000 ≤ n && n ≤ 0xFFFD) || 0x10000 ≤ n

def isSpace (c : Char) : Bool :=
  c == ' ' || c == '\t'

def isBreak (c : Char) : Bool :=
  c == '\n' || c == '\r' || c == '\x85' || c == '\u2028' || c == '\u2029'

/-- Nothing, a blank or a line end comes next. -/
def endsWord : List Char → Bool
  | [] => true
  | c :: _ => isSpace c || isBreak c

/-- Brackets and the comma, which end words between brackets. -/
def isFlowMark (c : Char) : Bool :=
  c == ',' || c == '[' || c == ']' || c == '\x7b' || c == '\x7d'

structure Cursor where
  rest : List Char
  index : Nat := 0
  line : Nat := 0
  column : Nat := 0

namespace Cursor

/-- Past one character within a line. -/
def next (c : Cursor) : Cursor :=
  { c with rest := c.rest.drop 1, index := c.index + 1, column := c.column + 1 }

/-- Past some characters within a line. -/
def advance (c : Cursor) (n : Nat) : Cursor :=
  { c with rest := c.rest.drop n, index := c.index + n, column := c.column + n }

/-- Past a line end, and what it reads as. -/
def takeBreak? (c : Cursor) : Option (Char × Cursor) :=
  match c.rest with
  | '\r' :: '\n' :: r => some ('\n', { rest := r, index := c.index + 2, line := c.line + 1 })
  | d :: r =>
    if isBreak d then
      let d := if d == '\r' || d == '\x85' then '\n' else d
      some (d, { rest := r, index := c.index + 1, line := c.line + 1 })
    else none
  | [] => none

/-- At a mark that begins or ends a document. -/
def atDocumentMark (c : Cursor) : Bool :=
  c.column == 0 &&
    match c.rest with
    | '-' :: '-' :: '-' :: r => endsWord r
    | '.' :: '.' :: '.' :: r => endsWord r
    | _ => false

/-- To the end of the line. -/
def skipComment (c : Cursor) : Cursor :=
  c.advance (c.rest.takeWhile fun d => !isBreak d).length

end Cursor

end SecureLayout.Yaml

namespace SecureLayout.Yaml

/-! ### Gaps between words -/

/-- Blanks and line ends between two words of a scalar. -/
structure Gap where
  blanks : List Char := []
  /-- The first line end; an escaped one counts as nothing. -/
  first : Option (List Char) := none
  later : List Char := []

namespace Gap

/-- What a gap reads as. -/
def text (g : Gap) : List Char :=
  match g.first with
  | none => g.blanks
  | some ['\n'] => if g.later.isEmpty then [' '] else g.later
  | some f => f ++ g.later

def hasBreak (g : Gap) : Bool :=
  g.first.isSome

end Gap

/-- Reads a gap. In a plain scalar no tab may stand in the indentation of `indent` columns. -/
def scanGap (indent : Nat) : Nat → Cursor → Gap → Option (Gap × Cursor)
  | 0, _, _ => none
  | fuel + 1, c, g =>
    match c.rest with
    | [] => some (g, c)
    | d :: _ =>
      if isSpace d then
        if g.hasBreak then
          if d == '\t' && c.column < indent then none else scanGap indent fuel c.next g
        else scanGap indent fuel c.next { g with blanks := g.blanks ++ [d] }
      else
        match c.takeBreak? with
        | none => some (g, c)
        | some (b, c) =>
          if g.hasBreak then scanGap indent fuel c { g with later := g.later ++ [b] }
          else scanGap indent fuel c { g with blanks := [], first := some [b] }

/-! ### Plain scalars -/

/-- How many characters the next word of a plain scalar has; between brackets a colon in front of a
bracket is a fault. -/
def wordLength (flow : Bool) : List Char → Option Nat
  | [] => some 0
  | c :: r =>
    if isSpace c || isBreak c then some 0
    else if flow && c == ':' && (match r with
      | d :: _ => isFlowMark d || d == '?'
      | [] => false) then none
    else if c == ':' && endsWord r then some 0
    else if flow && isFlowMark c then some 0
    else (wordLength flow r).map (· + 1)

/-- A plain scalar; lines after the first need `indent` columns outside of brackets. Also tells whether a
line end stands after it. -/
def scanPlain (flow : Bool) (indent : Nat) :
    Nat → Cursor → List Char → Gap → Option (List Char × Bool × Cursor)
  | 0, _, _, _ => none
  | fuel + 1, c, text, gap =>
    if c.atDocumentMark || c.rest.head? == some '#' then some (text, gap.hasBreak, c)
    else
      match wordLength flow c.rest with
      | none => none
      | some n =>
        let (text, gap) :=
          if n = 0 then (text, gap) else (text ++ gap.text ++ c.rest.take n, {})
        let c := c.advance n
        if !c.rest.isEmpty && endsWord c.rest then
          match scanGap indent (c.rest.length + 1) c {} with
          | none => none
          | some (gap, c) =>
            if !flow && c.column < indent then some (text, gap.hasBreak, c)
            else scanPlain flow indent fuel c text gap
        else some (text, gap.hasBreak, c)

/-! ### Quoted scalars -/

def hexDigit? (c : Char) : Option Nat :=
  if c.isDigit then some (c.toNat - 48)
  else if 'a' ≤ c && c ≤ 'f' then some (c.toNat - 87)
  else if 'A' ≤ c && c ≤ 'F' then some (c.toNat - 55)
  else none

/-- The character with a code of `n` hexadecimal digits. -/
def codePoint? (n : Nat) (s : List Char) : Option Char :=
  if s.length < n then none
  else do
    let v ← (s.take n).foldlM (fun v c => (hexDigit? c).map (16 * v + ·)) 0
    if (0xD800 ≤ v && v ≤ 0xDFFF) || 0x10FFFF < v then none else some (Char.ofNat v)

/-- The character that an escape stands for, and how many characters follow the backslash. -/
def escape? : List Char → Option (Char × Nat)
  | [] => none
  | c :: r =>
    match c with
    | '0' => some ('\x00', 1)
    | 'a' => some ('\x07', 1)
    | 'b' => some ('\x08', 1)
    | 't' => some ('\t', 1)
    | '\t' => some ('\t', 1)
    | 'n' => some ('\n', 1)
    | 'v' => some ('\x0b', 1)
    | 'f' => some ('\x0c', 1)
    | 'r' => some ('\r', 1)
    | 'e' => some ('\x1b', 1)
    | ' ' => some (' ', 1)
    | '"' => some ('"', 1)
    | '/' => some ('/', 1)
    | '\\' => some ('\\', 1)
    | 'N' => some ('\x85', 1)
    | '_' => some ('\xa0', 1)
    | 'L' => some ('\u2028', 1)
    | 'P' => some ('\u2029', 1)
    | 'x' => (codePoint? 2 r).map (·, 3)
    | 'u' => (codePoint? 4 r).map (·, 5)
    | 'U' => (codePoint? 8 r).map (·, 9)
    | _ => none

/-- A stretch without blanks of a quoted scalar; tells whether it ended at an escaped line end. -/
def scanQuotedWord (single : Bool) : Nat → Cursor → List Char → Option (List Char × Bool × Cursor)
  | 0, _, _ => none
  | fuel + 1, c, text =>
    match c.rest with
    | [] => some (text, false, c)
    | d :: r =>
      if isSpace d || isBreak d then some (text, false, c)
      else if single then
        match d, r with
        | '\'', '\'' :: _ => scanQuotedWord single fuel (c.advance 2) (text ++ ['\''])
        | '\'', _ => some (text, false, c)
        | d, _ => scanQuotedWord single fuel c.next (text ++ [d])
      else if d == '"' then some (text, false, c)
      else if d == '\\' then
        match c.next.takeBreak? with
        | some (_, c) => some (text, true, c)
        | none =>
          match escape? r with
          | none => none
          | some (e, n) => scanQuotedWord single fuel (c.advance (n + 1)) (text ++ [e])
      else scanQuotedWord single fuel c.next (text ++ [d])

/-- The rest of a quoted scalar after its opening quote. -/
def scanQuoted (single : Bool) : Nat → Cursor → List Char → Option (List Char × Cursor)
  | 0, _, _ => none
  | fuel + 1, c, text =>
    if c.atDocumentMark || c.rest.isEmpty then none
    else do
      let (text, escaped, c) ← scanQuotedWord single (c.rest.length + 1) c text
      let quote := if single then '\'' else '"'
      if c.rest.head? == some quote then return (text, c.next)
      let start : Gap := if escaped then { first := some [] } else {}
      let (gap, c) ← scanGap 0 (c.rest.length + 1) c start
      scanQuoted single fuel c (text ++ gap.text)

/-! ### Blocks -/

/-- What becomes of the line ends that a block ends with. -/
inductive Chomping where
  | strip
  | clip
  | keep
  deriving DecidableEq, Repr

/-- What stands after the bar or the angle of a block. -/
structure BlockHeader where
  chomping : Chomping := .clip
  /-- Indentation beyond that of the parent, if it is said. -/
  indent : Option Nat := none

def chomping? : Char → Option Chomping
  | '+' => some .keep
  | '-' => some .strip
  | _ => none

def indentDigit? (c : Char) : Option Nat :=
  if c.isDigit && c != '0' then some (c.toNat - 48) else none

def scanBlockHeader (c : Cursor) : Option (BlockHeader × Cursor) :=
  match c.rest with
  | [] => some ({}, c)
  | d :: r =>
    match chomping? d with
    | some ch =>
      match r with
      | e :: _ =>
        if e.isDigit then (indentDigit? e).map fun n => (⟨ch, some n⟩, c.advance 2)
        else some (⟨ch, none⟩, c.next)
      | [] => some (⟨ch, none⟩, c.next)
    | none =>
      if d.isDigit then
        match indentDigit? d with
        | none => none
        | some n =>
          match r.head?.bind chomping? with
          | some ch => some (⟨ch, some n⟩, c.advance 2)
          | none => some (⟨.clip, some n⟩, c.next)
      else some ({}, c)

/-- Indentation and empty lines in front of a line of a block. Without a known indentation the widest one
is taken; `least` columns are wanted then. -/
def scanBlockBreaks (indent : Option Nat) (least : Nat) :
    Nat → Cursor → Nat → List Char → Option (Nat × List Char × Cursor)
  | 0, _, _, _ => none
  | fuel + 1, c, widest, breaks =>
    let room (column : Nat) : Bool := match indent with
      | none => true
      | some n => column < n
    match c.rest with
    | ' ' :: _ =>
      if room c.column then scanBlockBreaks indent least fuel c.next (max widest (c.column + 1)) breaks
      else some (indent.getD (max widest least), breaks, c)
    | '\t' :: _ =>
      if room c.column then none else some (indent.getD (max widest least), breaks, c)
    | _ =>
      match c.takeBreak? with
      | some (b, c) => scanBlockBreaks indent least fuel c widest (breaks ++ [b])
      | none => some (indent.getD (max widest least), breaks, c)

/-- How far a block is read. -/
structure BlockText where
  text : List Char := []
  /-- The line end of the last line. -/
  pending : List Char := []
  /-- Empty lines after it. -/
  empty : List Char := []
  /-- The last line begins with a blank. -/
  indented : Bool := false

def BlockText.finish (b : BlockText) : Chomping → List Char
  | .strip => b.text
  | .clip => b.text ++ b.pending
  | .keep => b.text ++ b.pending ++ b.empty

/-- Lines of a block that begin at its indentation. -/
def scanBlockLines (literal : Bool) (indent : Nat) :
    Nat → Cursor → BlockText → Option (BlockText × Cursor)
  | 0, _, _ => none
  | fuel + 1, c, b =>
    match c.rest with
    | [] => some (b, c)
    | d :: _ =>
      if c.column != indent then some (b, c)
      else
        let blank := isSpace d
        let joined :=
          if !literal && b.pending == ['\n'] && !b.indented && !blank then
            if b.empty.isEmpty then [' '] else []
          else b.pending
        let line := c.rest.takeWhile fun d => !isBreak d
        let c := c.advance line.length
        let (pending, c) := match c.takeBreak? with
          | some (e, c) => ([e], c)
          | none => ([], c)
        match scanBlockBreaks (some indent) 0 (c.rest.length + 1) c 0 [] with
        | none => none
        | some (_, empty, c) =>
          scanBlockLines literal indent fuel c
            { text := b.text ++ joined ++ b.empty ++ line, pending, empty, indented := blank }

/-- A block after its bar or angle; `parent` is the indentation it stands in, if any. -/
def scanBlock (literal : Bool) (parent : Option Nat) (c : Cursor) : Option (List Char × Cursor) := do
  let (h, c) ← scanBlockHeader c
  let c := c.advance (c.rest.takeWhile isSpace).length
  let c := if c.rest.head? == some '#' then c.skipComment else c
  let c ← if c.rest.isEmpty then some c else c.takeBreak?.map (·.2)
  let least := max 1 ((parent.map (· + 1)).getD 0)
  let known := h.indent.map fun n => (parent.getD 0) + n
  let (indent, empty, c) ← scanBlockBreaks known least (c.rest.length + 1) c 0 []
  let (b, c) ← scanBlockLines literal indent (c.rest.length + 1) c { empty }
  return (b.finish h.chomping, c)

end SecureLayout.Yaml
