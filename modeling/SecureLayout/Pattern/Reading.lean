import SecureLayout.Numeric.Power
import SecureLayout.Pattern.Room
import SecureLayout.Text.Category

/-!
Patterns written as text. `Pattern.ofText?` refuses what is no pattern: unbalanced brackets, counts
and ranges upside down, a repetition of nothing, looking around, references back, unknown escapes and
repetitions that take too much room.
-/

namespace SecureLayout.Pattern

/-- Switches that hold for the rest of a group. -/
structure Mode where
  foldCase : Bool := false
  manyLines : Bool := false
  dotAll : Bool := false
  spaced : Bool := false
  unicode : Bool := true
  deriving Repr, DecidableEq

/-- Groups stand in each other at most this deep. -/
def greatestDepth : Nat := 250

def greatestCount : Nat := Numeric.twoTo 32 - 1

def hexValue? (c : Char) : Option Nat :=
  if c.isDigit then some (c.toNat - 48)
  else if 'a' ≤ c && c ≤ 'f' then some (c.toNat - 87)
  else if 'A' ≤ c && c ≤ 'F' then some (c.toNat - 55)
  else none

/-- The character of a code point, unless it is a surrogate or too great. -/
def charOf? (n : Nat) : Option Char :=
  if n < 0xD800 || (0xE000 ≤ n && n < 0x110000) then some (Char.ofNat n) else none

def hexNumber? (cs : List Char) : Option Nat :=
  if cs.isEmpty then none
  else cs.foldlM (fun n c => (hexValue? c).map fun d => 16 * n + d) 0

/-- A code point in `count` digits or in braces. -/
def codePoint? (count : Nat) : List Char → Option (Char × List Char)
  | '\x7b' :: r => do
    let digits := r.takeWhile (· != '\x7d')
    match r.dropWhile (· != '\x7d') with
    | _ :: rest => return (← charOf? (← hexNumber? digits), rest)
    | [] => none
  | r =>
    if (r.take count).length = count then do
      return (← charOf? (← hexNumber? (r.take count)), r.drop count)
    else none

/-- ASCII that stands for itself after a backslash: all but letters, digits and the angles. -/
def isEscapable (c : Char) : Bool :=
  c.toNat < 0x80 && !c.isAlphanum && c != '<' && c != '>'

inductive Escape where
  | literal (c : Char)
  | set (s : CharSet)
  | edge (e : Edge)

/-- Sets with their ASCII forms when other scripts are switched off; a set of all other characters
needs them switched on. -/
def namedSet? (m : Mode) (c : Char) : Option CharSet :=
  match c with
  | 'd' => some (if m.unicode then .digit else .asciiDigit)
  | 's' => some (if m.unicode then .blank else .asciiBlank)
  | 'w' => some (if m.unicode then .word else .asciiWord)
  | 'D' => if m.unicode then some (.compl .digit) else none
  | 'S' => if m.unicode then some (.compl .blank) else none
  | 'W' => if m.unicode then some (.compl .word) else none
  | _ => none

/-- What follows a `\b`: nothing, or a name in braces of one side of a word. -/
def wordEdge? (m : Mode) (r : List Char) : Option (Edge × List Char) :=
  match r with
  | '\x7b' :: r' =>
    let name := String.ofList (r'.takeWhile (· != '\x7d'))
    let rest := (r'.dropWhile (· != '\x7d')).drop 1
    match name with
    | "start" => some (.wordStart (!m.unicode), rest)
    | "end" => some (.wordEnd (!m.unicode), rest)
    | "start-half" => some (.wordStartHalf (!m.unicode), rest)
    | "end-half" => some (.wordEndHalf (!m.unicode), rest)
    | _ => if (name.toList.head?.map fun c => c.isDigit).getD false then some (.word (!m.unicode), r) else none
  | r => some (.word (!m.unicode), r)

/-- Characters of a named category; `gc` may stand before the name. -/
def categorySet? (name : List Char) : Option CharSet :=
  let value :=
    match name.dropWhile fun c => !(c == ':' || c == '=') with
    | _ :: r =>
      let key := Text.looseName (String.ofList (name.takeWhile fun c => !(c == ':' || c == '=')))
      if key == "gc" || key == "generalcategory" then some (String.ofList r) else none
    | [] => some (String.ofList name)
  value.bind fun v =>
    match Text.looseName v with
    | "ascii" => some (.range '\x00' '\x7f')
    | "whitespace" | "space" | "wspace" => some .blank
    | _ => (Text.categoryNamed? v).map fun wanted => .listed (Text.categoryRanges wanted)

/-- A category after `\p` or `\P`: one letter, or a name in braces. Other scripts must be on. -/
def category? (m : Mode) (inverted : Bool) (s : List Char) : Option (CharSet × List Char) :=
  let named : Option (CharSet × List Char) :=
    match s with
    | '\x7b' :: r =>
      match r.dropWhile (· != '\x7d') with
      | _ :: rest => (categorySet? (r.takeWhile (· != '\x7d'))).map fun set => (set, rest)
      | [] => none
    | c :: r => (categorySet? [c]).map fun set => (set, r)
    | [] => none
  if m.unicode then
    named.map fun (set, r) =>
      let set := if m.foldCase then .folded set else set
      (if inverted then .compl set else set, r)
  else none

/-- What a backslash begins. -/
def escape? (m : Mode) : List Char → Option (Escape × List Char)
  | [] => none
  | c :: r =>
    match c with
    | 'a' => some (.literal '\x07', r)
    | 'f' => some (.literal '\x0c', r)
    | 't' => some (.literal '\t', r)
    | 'n' => some (.literal '\n', r)
    | 'r' => some (.literal '\r', r)
    | 'v' => some (.literal '\x0b', r)
    | 'x' => (codePoint? 2 r).map fun (c, r) => (.literal c, r)
    | 'u' => (codePoint? 4 r).map fun (c, r) => (.literal c, r)
    | 'U' => (codePoint? 8 r).map fun (c, r) => (.literal c, r)
    | 'A' => some (.edge .textStart, r)
    | 'z' => some (.edge .textEnd, r)
    | 'p' => (category? m false r).map fun (set, r) => (.set set, r)
    | 'P' => (category? m true r).map fun (set, r) => (.set set, r)
    | 'b' => (wordEdge? m r).map fun (e, r) => (.edge e, r)
    | 'B' => some (.edge (.notWord (!m.unicode)), r)
    | '<' => some (.edge (.wordStart (!m.unicode)), r)
    | '>' => some (.edge (.wordEnd (!m.unicode)), r)
    | c =>
      match namedSet? m c with
      | some s => some (.set s, r)
      | none => if isEscapable c then some (.literal c, r) else none

def isSpace (c : Char) : Bool := Text.isBlank c

/-- Skips blanks and comments in spaced patterns. -/
def skipSpace (m : Mode) : List Char → List Char
  | s =>
    if m.spaced then
      let rec go : Nat → List Char → List Char
        | 0, s => s
        | fuel + 1, s =>
          match s with
          | '#' :: r => go fuel (r.dropWhile (· != '\n'))
          | c :: r => if isSpace c then go fuel r else c :: r
          | [] => []
      go (s.length + 1) s
    else s

/-! ### Sets in brackets -/

def rangeSet (m : Mode) (a b : Char) : CharSet :=
  if m.foldCase then .folded (.range a b) else .range a b

def unionOf : List CharSet → CharSet
  | [] => .none
  | [s] => s
  | s :: r => .union s (unionOf r)

/-- Operations on sets inside brackets. -/
inductive SetOp where
  | both
  | without
  | onlyOne

def SetOp.apply : SetOp → CharSet → CharSet → CharSet
  | both, a, b => .inter a b
  | without, a, b => .inter a (.compl b)
  | onlyOne, a, b => .union (.inter a (.compl b)) (.inter b (.compl a))

/-- What was read of a set: the left side of a pending operation and the items after it. -/
structure SetSoFar where
  left : Option (SetOp × CharSet)
  items : List CharSet

def SetSoFar.close (s : SetSoFar) : CharSet :=
  match s.left with
  | none => unionOf s.items.reverse
  | some (op, a) => op.apply a (unionOf s.items.reverse)

def SetSoFar.operate (s : SetSoFar) (op : SetOp) : SetSoFar :=
  ⟨some (op, s.close), []⟩

def SetSoFar.add (s : SetSoFar) (item : CharSet) : SetSoFar :=
  ⟨s.left, item :: s.items⟩

/-- Sets with a name between colons. -/
def posixSet? (name : String) : Option CharSet :=
  match name with
  | "alnum" => some (.union (.range '0' '9') (.union (.range 'A' 'Z') (.range 'a' 'z')))
  | "alpha" => some (.union (.range 'A' 'Z') (.range 'a' 'z'))
  | "ascii" => some (.range '\x00' '\x7f')
  | "blank" => some (.union (.range '\t' '\t') (.range ' ' ' '))
  | "cntrl" => some (.union (.range '\x00' '\x1f') (.range '\x7f' '\x7f'))
  | "digit" => some (.range '0' '9')
  | "graph" => some (.range '!' '~')
  | "lower" => some (.range 'a' 'z')
  | "print" => some (.range ' ' '~')
  | "punct" => some (.union (.union (.range '!' '/') (.range ':' '@')) (.union (.range '[' '`') (.range '\x7b' '~')))
  | "space" => some .asciiBlank
  | "upper" => some (.range 'A' 'Z')
  | "word" => some .asciiWord
  | "xdigit" => some (.union (.range '0' '9') (.union (.range 'A' 'F') (.range 'a' 'f')))
  | _ => none

/-- A named set after `[:`, if it is well closed. -/
def posix? (s : List Char) : Option (CharSet × List Char) :=
  let (inverted, s) : Bool × List Char :=
    match s with
    | '^' :: r => (true, r)
    | s => (false, s)
  match Text.splitAtMark [':', ']'] s with
  | some (name, rest) =>
    (posixSet? (String.ofList name)).map fun set => (if inverted then .compl set else set, rest)
  | none => none

/-- One end of a range or an item of its own. -/
def setItem? (m : Mode) : List Char → Option (Escape × List Char)
  | [] => none
  | '\\' :: r =>
    match escape? m r with
    | some (.edge _, _) => none
    | e => e
  | c :: r => some (.literal c, r)

/-- Items up to the closing bracket. -/
def setItems : Nat → Mode → SetSoFar → List Char → Option (CharSet × List Char)
  | 0, _, _, _ => none
  | fuel + 1, m, acc, s =>
    match skipSpace m s with
    | [] => none
    | ']' :: r => some (acc.close, r)
    | '&' :: '&' :: r => setItems fuel m (acc.operate .both) r
    | '-' :: '-' :: r => setItems fuel m (acc.operate .without) r
    | '~' :: '~' :: r => setItems fuel m (acc.operate .onlyOne) r
    | '[' :: r =>
      let named := match r with
        | ':' :: r' => posix? r'
        | _ => none
      match named with
      | some (set, r) => setItems fuel m (acc.add set) r
      | none => do
        let (set, r) ← opening fuel m r
        setItems fuel m (acc.add set) r
    | s => do
      let (item, r) ← setItem? m s
      match item, skipSpace m r with
      | .literal a, '-' :: r' =>
        match skipSpace m r' with
        | ']' :: _ => setItems fuel m (acc.add (rangeSet m a a)) r
        | '-' :: _ => setItems fuel m (acc.add (rangeSet m a a)) r
        | r' => do
          match ← setItem? m r' with
          | (.literal b, r'') =>
            if a ≤ b then setItems fuel m (acc.add (rangeSet m a b)) r'' else none
          | _ => none
      | .literal a, _ => setItems fuel m (acc.add (rangeSet m a a)) r
      | .set set, '-' :: r' =>
        match skipSpace m r' with
        | ']' :: _ => setItems fuel m (acc.add set) r
        | '-' :: _ => setItems fuel m (acc.add set) r
        | _ => none
      | .set set, _ => setItems fuel m (acc.add set) r
      | .edge _, _ => none
where
  /-- After an opening bracket: a caret, then hyphens and one bracket that stand for themselves. -/
  opening : Nat → Mode → List Char → Option (CharSet × List Char)
    | 0, _, _ => none
    | fuel + 1, m, s => do
      let (inverted, s) : Bool × List Char :=
        match skipSpace m s with
        | '^' :: r => (true, skipSpace m r)
        | s => (false, s)
      let hyphens := s.takeWhile (· == '-')
      let s := s.dropWhile (· == '-')
      let acc : SetSoFar := ⟨none, hyphens.map fun _ => .range '-' '-'⟩
      let (acc, s) : SetSoFar × List Char :=
        match hyphens, s with
        | [], ']' :: r => (acc.add (.range ']' ']'), r)
        | _, s => (acc, s)
      let (set, r) ← setItems fuel m acc s
      if inverted then
        if m.unicode then some (.compl set, r) else none
      else some (set, r)

/-! ### Groups and repetitions -/

/-- A decimal with blanks around it. -/
def count? (s : List Char) : Option (Nat × List Char) :=
  let s := s.dropWhile isSpace
  let digits := s.takeWhile Char.isDigit
  let rest := (s.dropWhile Char.isDigit).dropWhile isSpace
  let n := digits.foldl (fun n c => 10 * n + (c.toNat - 48)) 0
  if digits.isEmpty || greatestCount < n then none else some (n, rest)

/-- Bounds after an opening brace. -/
def bounds? (m : Mode) (s : List Char) : Option (Nat × Option Nat × List Char) := do
  let (least, r) ← count? s
  match skipSpace m r with
  | '\x7d' :: r => some (least, some least, r)
  | ',' :: r =>
    match skipSpace m r with
    | '\x7d' :: r => some (least, none, r)
    | r => do
      let (most, r) ← count? r
      match skipSpace m r with
      | '\x7d' :: r => if least ≤ most then some (least, some most, r) else none
      | _ => none
  | _ => none

/-- A repetition may be marked as lazy, which changes no answer. -/
def dropLazy (m : Mode) (s : List Char) : List Char :=
  match skipSpace m s with
  | '?' :: r => r
  | s => s

/-- Switches up to the closing bracket or colon; `on` is the sign, `some` letters were seen. -/
def switches? : List Char → Bool → List Char → Mode → Option (Mode × Char × List Char)
  | [], _, _, _ => none
  | c :: r, on, seen, m =>
    if c == ')' || c == ':' then
      if seen.head? == some '-' then none else some (m, c, r)
    else if c == '-' then if on then switches? r false ('-' :: seen) m else none
    else if seen.contains c then none
    else
      match c with
      | 'i' => switches? r on (c :: seen) { m with foldCase := on }
      | 'm' => switches? r on (c :: seen) { m with manyLines := on }
      | 's' => switches? r on (c :: seen) { m with dotAll := on }
      | 'x' => switches? r on (c :: seen) { m with spaced := on }
      | 'u' => switches? r on (c :: seen) { m with unicode := on }
      | 'U' => switches? r on (c :: seen) m
      | 'R' => switches? r on (c :: seen) m
      | _ => none

def isGroupNameStart (c : Char) : Bool :=
  c == '_' || (Text.isWord c && !Text.isDigit c)

def isGroupNamePart (c : Char) : Bool :=
  c == '.' || c == '[' || c == ']' || Text.isWord c

/-- A group's name up to the closing angle; used names are refused. -/
def groupName? (used : List String) (s : List Char) : Option (String × List Char) :=
  let name := s.takeWhile (· != '>')
  match s.dropWhile (· != '>'), name with
  | '>' :: r, c :: part =>
    let n := String.ofList name
    if isGroupNameStart c && part.all isGroupNamePart && !used.contains n then some (n, r) else none
  | _, _ => none

/-- A group while it is read: finished alternatives and the parts of the current one, both reversed;
a part may be one that nothing can repeat. -/
structure GroupSoFar where
  done : List Pattern
  parts : List Pattern
  repeatable : Bool

def seqOf : List Pattern → Pattern
  | [] => .empty
  | [p] => p
  | p :: r => .seq p (seqOf r)

def eitherOf : List Pattern → Pattern
  | [] => .empty
  | [p] => p
  | p :: r => .either p (eitherOf r)

namespace GroupSoFar

def start : GroupSoFar := ⟨[], [], false⟩

def add (g : GroupSoFar) (p : Pattern) : GroupSoFar :=
  { g with parts := p :: g.parts, repeatable := true }

def nextAlternative (g : GroupSoFar) : GroupSoFar :=
  ⟨seqOf g.parts.reverse :: g.done, [], false⟩

def close (g : GroupSoFar) : Pattern :=
  eitherOf (g.nextAlternative.done).reverse

/-- Repeats the last part. -/
def again (g : GroupSoFar) (least : Nat) (most : Option Nat) : Option GroupSoFar :=
  match g.repeatable, g.parts with
  | true, p :: r => some { g with parts := .rounds p least most :: r }
  | _, _ => none

end GroupSoFar

/-- How a group begins, after its bracket. -/
inductive Opening where
  | switches (m : Mode)
  | group (m : Mode) (used : List String)

def opening? (m : Mode) (used : List String) (s : List Char) : Option (Opening × List Char) :=
  match skipSpace m s with
  | '?' :: 'P' :: '<' :: r => (groupName? used r).map fun (n, r) => (.group m (n :: used), r)
  | '?' :: '<' :: '=' :: _ => none
  | '?' :: '<' :: '!' :: _ => none
  | '?' :: '<' :: r => (groupName? used r).map fun (n, r) => (.group m (n :: used), r)
  | '?' :: ')' :: _ => none
  | '?' :: r =>
    (switches? r true [] m).map fun (m', c, r) =>
      (if c == ')' then .switches m' else .group m' used, r)
  | s => some (.group m used, s)

/-- Any character but, unless switched off, the end of a line. -/
def dot (m : Mode) : Option Pattern :=
  if m.unicode then
    some (.one (if m.dotAll then .compl .none else .compl (.range '\n' '\n')))
  else none

/-- A character that stands for itself; beyond ASCII other scripts must be on. -/
def literal? (m : Mode) (c : Char) : Option Pattern :=
  if m.unicode || c.toNat < 0x80 then some (.one (rangeSet m c c)) else none

/-- Reads up to the bracket that closes the group at `depth`, or to the end at depth zero. -/
def group : Nat → Nat → Mode → List String → GroupSoFar → List Char →
    Option (Pattern × List String × List Char)
  | 0, _, _, _, _, _ => none
  | fuel + 1, depth, m, used, g, s =>
    match skipSpace m s with
    | [] => if depth = 0 then some (g.close, used, []) else none
    | ')' :: r => if depth = 0 then none else some (g.close, used, r)
    | '|' :: r => group fuel depth m used g.nextAlternative r
    | '*' :: r => do group fuel depth m used (← g.again 0 none) (dropLazy m r)
    | '+' :: r => do group fuel depth m used (← g.again 1 none) (dropLazy m r)
    | '?' :: r => do group fuel depth m used (← g.again 0 (some 1)) (dropLazy m r)
    | '\x7b' :: r => do
      let (least, most, r) ← bounds? m r
      group fuel depth m used (← g.again least most) (dropLazy m r)
    | '.' :: r => do group fuel depth m used (g.add (← dot m)) r
    | '^' :: r => group fuel depth m used (g.add (.edge (if m.manyLines then .lineStart else .textStart))) r
    | '$' :: r => group fuel depth m used (g.add (.edge (if m.manyLines then .lineEnd else .textEnd))) r
    | '[' :: r => do
      let (set, r) ← setItems.opening fuel m r
      group fuel depth m used (g.add (.one set)) r
    | '(' :: r => do
      match ← opening? m used r with
      | (.switches m', r) => group fuel depth m' used { g with repeatable := false } r
      | (.group m' used, r) =>
        if greatestDepth ≤ depth then none
        else do
          let (p, used, r) ← group fuel (depth + 1) m' used .start r
          group fuel depth m used (g.add p) r
    | '\\' :: r => do
      match ← escape? m r with
      | (.literal c, r) => group fuel depth m used (g.add (← literal? m c)) r
      | (.set set, r) => group fuel depth m used (g.add (.one set)) r
      | (.edge e, r) => group fuel depth m used (g.add (.edge e)) r
    | c :: r => do group fuel depth m used (g.add (← literal? m c)) r

/-- The pattern that a text writes down, unless it would take too much room. -/
def ofText? (s : String) : Option Pattern :=
  match group (2 * s.toList.length + 2) 0 {} [] .start s.toList with
  | some (p, _, _) => if p.room ≤ greatestRoom then some p else none
  | none => none

end SecureLayout.Pattern
