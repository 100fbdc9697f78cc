import SecureLayout.Yaml.Scalar

/-!
Tokens of a YAML text. Where a line begins decides which collections it opens and closes, and a word
turns out to be a key only when a colon comes after it, so the token for it is put in later.
-/

namespace SecureLayout.Yaml

inductive Token where
  | versionDirective
  | tagDirective (handle : String)
  | documentStart
  | documentEnd
  | streamEnd
  | blockSequenceStart
  | blockMappingStart
  | blockEnd
  | flowSequenceStart
  | flowSequenceEnd
  | flowMappingStart
  | flowMappingEnd
  | blockEntry
  | flowEntry
  | key
  | value
  | aliasOf (name : String)
  | anchor (name : String)
  | tag (handle : String)
  /-- A scalar, and whether it is a plain one. -/
  | scalar (text : String) (plain : Bool)
  deriving DecidableEq, Repr

/-- A token that may turn out to begin a key. -/
structure PossibleKey where
  /-- How many tokens stand before it. -/
  position : Nat
  /-- Nothing but a key may stand here. -/
  required : Bool
  index : Nat
  line : Nat
  column : Nat

structure Scan where
  cursor : Cursor
  tokens : Array Token := #[]
  /-- Columns of the open block collections, innermost first. -/
  indents : List Nat := []
  /-- The possible key of each open bracket, innermost first, and of the outside. -/
  keys : List (Option PossibleKey) := [none]
  /-- A key may begin here. -/
  keyAllowed : Bool := true

namespace Scan

def inFlow (s : Scan) : Bool :=
  1 < s.keys.length

def emit (s : Scan) (t : Token) : Scan :=
  { s with tokens := s.tokens.push t }

def move (s : Scan) (n : Nat) : Scan :=
  { s with cursor := s.cursor.advance n }

/-- Puts a token in before those from a position on. -/
def insertAt (s : Scan) (i : Nat) (t : Token) : Scan :=
  { s with tokens := s.tokens.insertIdxIfInBounds i t }

/-- Keys stand on one line and within 1024 characters. -/
def keyHolds (s : Scan) (k : PossibleKey) : Bool :=
  k.line == s.cursor.line && s.cursor.index ≤ k.index + 1024

/-- Gives up keys that did not come; one that had to come is a fault. -/
def dropStale (s : Scan) : Option Scan := do
  let keys ← s.keys.mapM fun
    | none => some none
    | some k => if s.keyHolds k then some (some k) else if k.required then none else some none
  return { s with keys }

/-- No key begins at the current place any more. -/
def removeKey (s : Scan) : Option Scan :=
  match s.keys with
  | some k :: r => if k.required then none else some { s with keys := none :: r }
  | _ => some s

/-- The next token may begin a key. -/
def saveKey (s : Scan) : Option Scan :=
  if s.keyAllowed then do
    let s ← s.removeKey
    let c := s.cursor
    let k : PossibleKey :=
      { position := s.tokens.size, required := !s.inFlow && s.indents.head? == some c.column
        index := c.index, line := c.line, column := c.column }
    return { s with keys := some k :: s.keys.drop 1 }
  else some s

/-- Whether a column lies right of all open block collections. -/
def isDeeper (s : Scan) (column : Nat) : Bool :=
  match s.indents with
  | [] => true
  | n :: _ => n < column

/-- Opens a block collection when the column asks for one. -/
def roll (s : Scan) (column position : Nat) (t : Token) : Scan :=
  if s.inFlow || !s.isDeeper column then s
  else { (s.insertAt position t) with indents := column :: s.indents }

/-- Closes the block collections that begin right of a column; without one, all of them. -/
def unroll (s : Scan) (column : Option Nat) : Scan :=
  if s.inFlow then s
  else
    let closed := s.indents.takeWhile fun n => match column with
      | none => true
      | some c => c < n
    { s with
      indents := s.indents.drop closed.length
      tokens := s.tokens ++ (closed.map fun _ => Token.blockEnd).toArray }

/-! ### Between tokens -/

/-- Past blanks, comments and line ends. -/
def skipBlanks : Nat → Scan → Scan
  | 0, s => s
  | fuel + 1, s =>
    match s.cursor.rest with
    | [] => s
    | c :: _ =>
      if c == '\ufeff' && s.cursor.column == 0 then skipBlanks fuel (s.move 1)
      else if c == ' ' || (c == '\t' && (s.inFlow || !s.keyAllowed)) then skipBlanks fuel (s.move 1)
      else if c == '#' then skipBlanks fuel { s with cursor := s.cursor.skipComment }
      else
        match s.cursor.takeBreak? with
        | none => s
        | some (_, cursor) =>
          skipBlanks fuel { s with cursor, keyAllowed := s.keyAllowed || !s.inFlow }

/-! ### Tokens one by one -/

/-- Directives and document marks end everything that is open. -/
def closeAll (s : Scan) : Option Scan := do
  let s ← (s.unroll none).removeKey
  return { s with keyAllowed := false }

def isAnchorPart (c : Char) : Bool :=
  c.isAlphanum || c == '-' || c == '_'

def afterAnchor : List Char → Bool
  | [] => true
  | c :: _ => isSpace c || isBreak c || "?:,]\x7d%@`".toList.contains c

/-- The name of an anchor or of an alias to it. -/
def scanAnchor (s : Scan) (make : String → Token) : Option Scan := do
  let s ← s.saveKey
  let s := { s with keyAllowed := false }.move 1
  let name := s.cursor.rest.takeWhile isAnchorPart
  let s := s.move name.length
  if name.isEmpty || !afterAnchor s.cursor.rest then none
  else some (s.emit (make (String.ofList name)))

def isUriPart (c : Char) : Bool :=
  c.isAlphanum || "-_;/?:@&=+$.%!~*'(),[]".toList.contains c

/-- The handle of a tag; what the tag says is not looked at. -/
def scanTag (s : Scan) : Option Scan := do
  let s ← s.saveKey
  let s := { s with keyAllowed := false }
  let done (n : Nat) (handle : String) : Option Scan :=
    let s := s.move n
    match s.cursor.rest with
    | ',' :: _ => if s.inFlow then some (s.emit (.tag handle)) else none
    | r => if endsWord r then some (s.emit (.tag handle)) else none
  match s.cursor.rest.drop 1 with
  | '<' :: r =>
    let uri := r.takeWhile isUriPart
    if uri.isEmpty || (r.drop uri.length).head? != some '>' then none
    else done (uri.length + 3) ""
  | r =>
    let name := r.takeWhile isAnchorPart
    match r.drop name.length with
    | '!' :: rest =>
      let suffix := rest.takeWhile isUriPart
      if suffix.isEmpty then none
      else done (name.length + suffix.length + 2) ("!" ++ String.ofList name ++ "!")
    | _ =>
      let suffix := r.takeWhile isUriPart
      done (suffix.length + 1) "!"

/-- A directive: of the version, which must be a known one, or of a tag handle. -/
def scanDirective (s : Scan) : Option Scan := do
  let s ← s.closeAll
  let line := (s.cursor.rest.drop 1).takeWhile fun c => !isBreak c
  let words := ((line.splitBy fun a b => isSpace a == isSpace b).filter fun w => !w.all isSpace).map
    String.ofList
  let words := words.takeWhile fun w => !w.startsWith "#"
  let s := s.move (line.length + 1)
  match words with
  | ["YAML", v] =>
    if v == "1.1" || v == "1.2" then some (s.emit .versionDirective) else none
  | ["TAG", handle, _] =>
    if handle.startsWith "!" && handle.endsWith "!" then some (s.emit (.tagDirective handle)) else none
  | _ => none

def openFlow (s : Scan) (t : Token) : Option Scan := do
  let s ← s.saveKey
  return { (s.emit t).move 1 with keys := none :: s.keys, keyAllowed := true }

def closeFlow (s : Scan) (t : Token) : Option Scan := do
  let s ← s.removeKey
  let keys := if s.inFlow then s.keys.drop 1 else s.keys
  return { (s.emit t).move 1 with keys, keyAllowed := false }

def scanFlowEntry (s : Scan) : Option Scan := do
  let s ← s.removeKey
  return { (s.emit .flowEntry).move 1 with keyAllowed := true }

def scanBlockEntry (s : Scan) : Option Scan := do
  if !s.inFlow && !s.keyAllowed then none
  let s := s.roll s.cursor.column s.tokens.size .blockSequenceStart
  let s ← s.removeKey
  return { (s.emit .blockEntry).move 1 with keyAllowed := true }

def scanKey (s : Scan) : Option Scan := do
  if !s.inFlow && !s.keyAllowed then none
  let s := s.roll s.cursor.column s.tokens.size .blockMappingStart
  let s ← s.removeKey
  return { (s.emit .key).move 1 with keyAllowed := !s.inFlow }

/-- A colon: it makes the possible key a key, or follows a key that was marked as one. -/
def scanValue (s : Scan) : Option Scan :=
  match s.keys with
  | some k :: r =>
    let s := (s.insertAt k.position .key).roll k.column k.position .blockMappingStart
    some { (s.emit .value).move 1 with keys := none :: r, keyAllowed := false }
  | _ =>
    if !s.inFlow && !s.keyAllowed then none
    else
      let s := s.roll s.cursor.column s.tokens.size .blockMappingStart
      some { (s.emit .value).move 1 with keyAllowed := !s.inFlow }

def scanBlockScalar (s : Scan) (literal : Bool) : Option Scan := do
  let s ← s.removeKey
  let (text, cursor) ← scanBlock literal s.indents.head? s.cursor.next
  return { s.emit (.scalar (String.ofList text) false) with cursor, keyAllowed := true }

def scanQuotedScalar (s : Scan) (single : Bool) : Option Scan := do
  let s ← s.saveKey
  let c := s.cursor.next
  let (text, cursor) ← scanQuoted single (c.rest.length + 1) c []
  return { s.emit (.scalar (String.ofList text) false) with cursor, keyAllowed := false }

def scanPlainScalar (s : Scan) : Option Scan := do
  let s ← s.saveKey
  let indent := (s.indents.head?.map (· + 1)).getD 0
  let (text, broken, cursor) ←
    Yaml.scanPlain s.inFlow indent (s.cursor.rest.length + 1) s.cursor [] {}
  return { s.emit (.scalar (String.ofList text) true) with cursor, keyAllowed := broken }

/-- Characters that a plain scalar does not begin with. -/
def isIndicator (c : Char) : Bool :=
  "-?:,[]\x7b\x7d#&*!|>'\"%@`".toList.contains c

def beginsPlain (flow : Bool) : List Char → Bool
  | [] => false
  | c :: r =>
    !isIndicator c || (c == '-' && !(r.head?.any isSpace)) ||
      (!flow && (c == '?' || c == ':') && !endsWord r)

/-- Reads one more token, and others that it entails; the flag tells the end. -/
def step (s : Scan) : Option (Scan × Bool) := do
  let s := skipBlanks (s.cursor.rest.length + 1) s
  let s ← s.dropStale
  let s := s.unroll (some s.cursor.column)
  let more (r : Option Scan) : Option (Scan × Bool) := r.map (·, false)
  match s.cursor.rest with
  | [] =>
    let s ← s.closeAll
    return (s.emit .streamEnd, true)
  | c :: r =>
    if c == '%' && s.cursor.column == 0 then more s.scanDirective
    else if s.cursor.atDocumentMark then
      more (s.closeAll.map fun s =>
        (s.emit (if c == '-' then .documentStart else .documentEnd)).move 3)
    else
      match c with
      | '[' => more (s.openFlow .flowSequenceStart)
      | '\x7b' => more (s.openFlow .flowMappingStart)
      | ']' => more (s.closeFlow .flowSequenceEnd)
      | '\x7d' => more (s.closeFlow .flowMappingEnd)
      | ',' => more s.scanFlowEntry
      | '*' => more (s.scanAnchor .aliasOf)
      | '&' => more (s.scanAnchor .anchor)
      | '!' => more s.scanTag
      | '\'' => more (s.scanQuotedScalar true)
      | '"' => more (s.scanQuotedScalar false)
      | c =>
        if c == '-' && endsWord r then more s.scanBlockEntry
        else if c == '?' && (s.inFlow || endsWord r) then more s.scanKey
        else if c == ':' && (s.inFlow || endsWord r) then more s.scanValue
        else if c == '|' && !s.inFlow then more (s.scanBlockScalar true)
        else if c == '>' && !s.inFlow then more (s.scanBlockScalar false)
        else if beginsPlain s.inFlow (c :: r) then more s.scanPlainScalar
        else none

def run : Nat → Scan → Option (List Token)
  | 0, _ => none
  | fuel + 1, s =>
    match s.step with
    | none => none
    | some (s, true) => some s.tokens.toList
    | some (s, false) => run fuel s

end Scan

/-- The tokens of a text, unless a place in it begins none. -/
def tokenize (text : List Char) : Option (List Token) :=
  if text.all isPrintable then Scan.run (text.length + 2) { cursor := { rest := text } } else none

end SecureLayout.Yaml
