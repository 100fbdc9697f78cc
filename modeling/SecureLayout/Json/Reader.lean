import SecureLayout.Json.Error
import SecureLayout.Json.Value
import SecureLayout.Numeric.Power
import SecureLayout.Text.Blank

/-!
Reading JSON text. A `Reader` takes a result from a cursor or refuses; what it reads is `Raw`: the
members of objects in the order of the text, repeated keys kept. `Raw.toValue` forgets both.
-/

namespace SecureLayout.Json

open SecureLayout.Numeric

/-- A JSON text as it stands. -/
inductive Raw where
  | null
  | bool (b : Bool)
  | number (n : Number)
  | text (s : String)
  | list (items : List Raw)
  | object (members : List (String × Raw))
  deriving Repr, Inhabited

namespace Raw

mutual

/-- Members are put in key order; of repeated ones the last wins. -/
def toValue : Raw → Value
  | null => .null
  | bool b => .bool b
  | number n => .number n
  | text s => .text s
  | list items => .list (toValues items)
  | object members => .object (Entries.ofList (toMembers members))

def toValues : List Raw → List Value
  | [] => []
  | r :: rs => toValue r :: toValues rs

def toMembers : List (String × Raw) → List (String × Value)
  | [] => []
  | (k, r) :: rs => (k, toValue r) :: toMembers rs

end

def found : Raw → Found
  | null => .null
  | bool b => .bool b
  | number (.int n) => .int n
  | number (.float x) => .float x
  | text s => .text s
  | list _ => .list
  | object _ => .object

end Raw

/-- What is left to read, and the place reached. -/
structure Cursor where
  rest : List Char
  place : Position
  deriving Repr

abbrev Reader (α : Type) := StateT Cursor (Except Error) α

def Position.start : Position := ⟨1, 0⟩

/-- The place after one more character. -/
def Position.step (p : Position) (c : Char) : Position :=
  if c = '\n' then ⟨p.line + 1, 0⟩ else ⟨p.line, p.column + c.utf8Size⟩

def Position.steps (p : Position) (cs : List Char) : Position :=
  cs.foldl Position.step p

/-- The place one octet further, where complaints about the next character point. -/
def Position.peek (p : Position) : List Char → Position
  | [] => p
  | c :: _ => if c = '\n' then ⟨p.line + 1, 0⟩ else ⟨p.line, p.column + 1⟩

namespace Cursor

def start (s : List Char) : Cursor := ⟨s, .start⟩

def advance (c : Cursor) (taken rest : List Char) : Cursor :=
  ⟨rest, c.place.steps taken⟩

end Cursor

namespace Reader

/-- Refuses at the place reached. -/
def faultHere {α : Type} (f : Fault) : Reader α :=
  fun c => .error (.fault f c.place)

/-- Refuses because of the next character. -/
def faultNext {α : Type} (f : Fault) : Reader α :=
  fun c => .error (.fault f (c.place.peek c.rest))

def mismatchHere {α : Type} (m : Mismatch) : Reader α :=
  fun c => .error (.mismatch m (some c.place))

def peek : Reader (Option Char) :=
  fun c => .ok (c.rest.head?, c)

/-- Drops the next character. -/
def skip : Reader Unit :=
  fun c =>
    match c.rest with
    | [] => .ok ((), c)
    | a :: r => .ok ((), c.advance [a] r)

def isSpace (c : Char) : Bool :=
  c == ' ' || c == '\n' || c == '\t' || c == '\r'

/-- Skips white space and shows what follows. -/
def next : Reader (Option Char) :=
  fun c =>
    let rest := c.rest.dropWhile isSpace
    .ok (rest.head?, c.advance (c.rest.takeWhile isSpace) rest)

/-- Reads on while `p` holds. -/
def takeWhile (p : Char → Bool) : Reader (List Char) :=
  fun c =>
    let taken := c.rest.takeWhile p
    .ok (taken, c.advance taken (c.rest.dropWhile p))

/-- The letters that are left of `null`, `true` or `false`. -/
def word : List Char → Reader Unit
  | [] => pure ()
  | w :: ws => do
    match ← peek with
    | none => faultHere .endInValue
    | some a =>
      if a = w then
        skip
        word ws
      else faultNext .badWord

/-! ### Strings -/

def hexValue (c : Char) : Option Nat :=
  if c.isDigit then some (c.toNat - 48)
  else if 'a' ≤ c && c ≤ 'f' then some (c.toNat - 87)
  else if 'A' ≤ c && c ≤ 'F' then some (c.toNat - 55)
  else none

/-- The place a number of octets further. -/
def octetsOn (p : Position) : Nat → List Char → Position
  | 0, _ => p
  | _, [] => p
  | n + 1, c :: r =>
    if c.utf8Size ≤ n + 1 then octetsOn (p.step c) (n + 1 - c.utf8Size) r
    else ⟨p.line, p.column + (n + 1)⟩

/-- Refuses the four octets after `\u`, or the end of the text among them. -/
def badHex (rest : List Char) (p : Position) : Error :=
  if Text.byteLength rest < 4 then .fault .endInText (p.steps rest)
  else .fault .badEscape (octetsOn p 4 rest)

/-- Four hexadecimal digits. -/
def hex4? (a b c d : Char) : Option Nat := do
  let a ← hexValue a
  let b ← hexValue b
  let c ← hexValue c
  let d ← hexValue d
  return ((a * 16 + b) * 16 + c) * 16 + d

/-- The escape after a backslash that is one character long. -/
def shortEscape : Char → Option Char
  | '"' => some '"'
  | '\\' => some '\\'
  | '/' => some '/'
  | 'b' => some '\x08'
  | 'f' => some '\x0c'
  | 'n' => some '\n'
  | 'r' => some '\r'
  | 't' => some '\t'
  | _ => none

/-- What a high surrogate is followed by when it is not an escape. -/
def brokenPair (rest : List Char) (p : Position) : Error :=
  match rest with
  | [] => .fault .endInText p
  | '\\' :: r =>
    match r with
    | [] => .fault .endInText (p.step '\\')
    | 'u' :: r => badHex r ((p.step '\\').step 'u')
    | _ => .fault .hexEscapeEnds ((p.step '\\').peek r)
  | _ => .fault .hexEscapeEnds (p.peek rest)

/-- The characters up to the closing quote; `acc` holds those read, last first. -/
def textBody (acc : List Char) (p : Position) : List Char → Except Error (List Char × Cursor)
  | [] => .error (.fault .endInText p)
  | '"' :: r => .ok (acc.reverse, ⟨r, p.step '"'⟩)
  | '\\' :: 'u' :: a :: b :: c :: d :: r =>
    let q := (p.step '\\').step 'u'
    match hex4? a b c d with
    | none => .error (badHex (a :: b :: c :: d :: r) q)
    | some n =>
      let q := q.steps [a, b, c, d]
      if 0xDC00 ≤ n && n ≤ 0xDFFF then .error (.fault .loneSurrogate q)
      else if n < 0xD800 || 0xDBFF < n then textBody (Char.ofNat n :: acc) q r
      else
        match r with
        | '\\' :: 'u' :: a :: b :: c :: d :: r =>
          let q := (q.step '\\').step 'u'
          match hex4? a b c d with
          | none => .error (badHex (a :: b :: c :: d :: r) q)
          | some m =>
            let q := q.steps [a, b, c, d]
            if m < 0xDC00 || 0xDFFF < m then .error (.fault .loneSurrogate q)
            else textBody (Char.ofNat (0x10000 + (n - 0xD800) * 0x400 + (m - 0xDC00)) :: acc) q r
        | r => .error (brokenPair r q)
  | '\\' :: r =>
    let p := p.step '\\'
    match r with
    | [] => .error (.fault .endInText p)
    | 'u' :: r => .error (badHex r (p.step 'u'))
    | e :: r =>
      match shortEscape e with
      | some c => textBody (c :: acc) (p.step e) r
      | none => .error (.fault .badEscape (p.peek [e]))
  | c :: r =>
    if c.toNat < 0x20 then .error (.fault .controlCharacter (p.step c))
    else textBody (c :: acc) (p.step c) r

/-- A string whose opening quote has been read. -/
def text : Reader String := fun c => do
  let (s, c) ← textBody [] c.place c.rest
  return (String.ofList s, c)

/-! ### Numbers -/

/-- Greatest integer that is kept as one. -/
def greatestWord : Nat := Numeric.twoTo 64 - 1

def digitValue (c : Char) : Nat :=
  c.toNat - 48

/-- Digits added to a significand while it fits 64 bits; then what is left. -/
def significand (n : Nat) : List Char → Nat × List Char
  | [] => (n, [])
  | d :: r =>
    if greatestWord < n * 10 + digitValue d then (n, d :: r)
    else significand (n * 10 + digitValue d) r

/-- Divides by `1e308` as often as the power asks; nothing is left after three times. -/
def scaleDown : Nat → Double → Nat → Double
  | 0, x, _ => x
  | fuel + 1, x, k =>
    if x.isZero then x
    else if k ≤ 308 then x.divMagnitude (Double.ofScientific 1 k)
    else scaleDown fuel (x.divMagnitude (Double.ofScientific 1 308)) (k - 308)

/-- Significand times a power of ten, rounded once for the significand and once for the power. -/
def scaled (n : Nat) (e : Int) : Option Double :=
  let x := Double.ofNat n
  match e with
  | .ofNat k =>
    if 308 < k then if x.isZero then some x else none
    else
      let y := x.mulMagnitude (Double.ofScientific 1 k)
      if y.isFinite then some y else none
  | .negSucc k => some (scaleDown 4 x (k + 1))

def finish (negative : Bool) (n : Nat) (e : Int) : Reader Number :=
  match scaled n e with
  | some x => pure (.float (x.withSign negative))
  | none => faultHere .numberOutOfRange

/-- Value of the digits of an exponent, and whether it fits 32 bits; reading stops at the first that does not. -/
def exponentDigits (n : Nat) : List Char → Nat × List Char × Bool
  | [] => (n, [], true)
  | d :: r =>
    if 2147483647 < n * 10 + digitValue d then (n, d :: r, false)
    else exponentDigits (n * 10 + digitValue d) r

/-- The exponent after `e`, which is still to be skipped. -/
def exponent (negative : Bool) (n : Nat) (e : Int) : Reader Number := do
  skip
  let down ←
    match ← peek with
    | some '+' => do skip; pure false
    | some '-' => do skip; pure true
    | _ => pure false
  match ← peek with
  | none => faultHere .endInValue
  | some d =>
    if d.isDigit then
      let start ← get
      let ds := start.rest.takeWhile Char.isDigit
      let (k, unread, fits) := exponentDigits 0 ds
      if fits then
        set (start.advance ds (start.rest.dropWhile Char.isDigit))
        finish negative n (if down then e - k else e + k)
      else if n ≠ 0 && !down then
        let taken := ds.take (ds.length - unread.length + 1)
        set (start.advance taken (start.rest.drop taken.length))
        faultHere .numberOutOfRange
      else
        set (start.advance ds (start.rest.dropWhile Char.isDigit))
        return .float (Double.zero.withSign negative)
    else faultNext .badNumber

/-- Digits after the point, which is still to be skipped; those that no longer fit count as read. -/
def fraction (negative : Bool) (n : Nat) (e : Int) : Reader Number := do
  skip
  let ds ← takeWhile Char.isDigit
  if ds.isEmpty then
    match ← peek with
    | some _ => faultNext .badNumber
    | none => faultNext .endInValue
  else
    let (m, unread) := significand n ds
    let e := e - ((ds.length - unread.length : Nat) : Int)
    match ← peek with
    | some 'e' => exponent negative m e
    | some 'E' => exponent negative m e
    | _ => finish negative m e

/-- A number that stays an integer: below zero down to the least 64-bit integer, and no `-0`. -/
def whole (negative : Bool) (n : Nat) : Number :=
  if negative then
    if n = 0 || Numeric.twoTo 63 < n then .float (Double.ofNat n).neg else .int (-(n : Int))
  else .int n

/-- A number whose sign has been read. -/
def number (negative : Bool) : Reader Number := do
  match ← peek with
  | none => faultHere .endInValue
  | some '0' => do
    skip
    match ← peek with
    | some '.' => fraction negative 0 0
    | some 'e' => exponent negative 0 0
    | some 'E' => exponent negative 0 0
    | some c => if c.isDigit then faultNext .badNumber else pure (whole negative 0)
    | none => pure (whole negative 0)
  | some c =>
    if c.isDigit then
      let ds ← takeWhile Char.isDigit
      let (n, unread) := significand 0 ds
      let e : Int := unread.length
      match ← peek with
      | some '.' => fraction negative n e
      | some 'e' => exponent negative n e
      | some 'E' => exponent negative n e
      | _ => if unread.isEmpty then pure (whole negative n) else finish negative n e
    else faultNext .badNumber

/-! ### Values -/

/-- Whether another item follows in a list; its comma is skipped. -/
def hasItem (first : Bool) : Reader Bool := do
  match ← next with
  | none => faultNext .endInList
  | some ']' => pure false
  | some c =>
    if first then pure true
    else if c = ',' then
      skip
      match ← next with
      | some ']' => faultNext .trailingComma
      | some _ => pure true
      | none => faultNext .endInValue
    else faultNext .listCommaOrEnd

/-- Whether another member follows in an object; its comma is skipped and its quote comes next. -/
def hasMember (first : Bool) : Reader Bool := do
  match ← next with
  | none => faultNext .endInObject
  | some '\x7d' => pure false
  | some c =>
    if first then
      if c = '"' then pure true else faultNext .keyNotText
    else if c = ',' then
      skip
      match ← next with
      | some '"' => pure true
      | some '\x7d' => faultNext .trailingComma
      | some _ => faultNext .keyNotText
      | none => faultNext .endInValue
    else faultNext .objectCommaOrEnd

/-- The key that comes next, its opening quote not yet skipped. -/
def key : Reader String := do
  skip
  text

def colon : Reader Unit := do
  match ← next with
  | some ':' => skip
  | some _ => faultNext .colonMissing
  | none => faultNext .endInObject

/-- Scalars; `none` before a list or an object. -/
def scalar : Reader (Option Raw) := do
  match ← next with
  | none => faultNext .endInValue
  | some 'n' => do skip; word ['u', 'l', 'l']; pure (some .null)
  | some 't' => do skip; word ['r', 'u', 'e']; pure (some (.bool true))
  | some 'f' => do skip; word ['a', 'l', 's', 'e']; pure (some (.bool false))
  | some '-' => do skip; return some (.number (← number true))
  | some '"' => do skip; return some (.text (← text))
  | some '[' => pure none
  | some '\x7b' => pure none
  | some c => if c.isDigit then return some (.number (← number false)) else faultNext .valueMissing

mutual

/-- Any value; `room` is how many more levels of lists and objects may open. -/
def value : Nat → Nat → Reader Raw
  | 0, _ => faultHere .endInValue
  | fuel + 1, room => do
    match ← scalar with
    | some r => pure r
    | none =>
      match room with
      | 0 => faultNext .tooDeep
      | room + 1 =>
        match ← peek with
        | some '[' => do
          skip
          let rs ← items fuel room true
          skip
          pure (.list rs)
        | _ => do
          skip
          let ms ← members fuel room true
          skip
          pure (.object ms)

/-- The items up to the closing bracket, which is left. -/
def items : Nat → Nat → Bool → Reader (List Raw)
  | 0, _, _ => faultHere .endInList
  | fuel + 1, room, first => do
    if ← hasItem first then
      let r ← value fuel room
      let rs ← items fuel room false
      pure (r :: rs)
    else pure []

/-- The members up to the closing brace, which is left. -/
def members : Nat → Nat → Bool → Reader (List (String × Raw))
  | 0, _, _ => faultHere .endInObject
  | fuel + 1, room, first => do
    if ← hasMember first then
      let k ← key
      colon
      let r ← value fuel room
      let rs ← members fuel room false
      pure ((k, r) :: rs)
    else pure []

end

/-- Levels of lists and objects that a text may have. -/
def greatestDepth : Nat := 127

/-- Steps that suffice for what a cursor has left: every second step takes a character. -/
def fuelFor (c : Cursor) : Nat :=
  2 * c.rest.length + 2

/-- A value with `room` more levels. -/
def anyValue (room : Nat) : Reader Raw := fun c =>
  value (fuelFor c) room c

/-- Nothing but white space may be left. -/
def atEnd : Reader Unit := do
  match ← next with
  | some _ => faultNext .trailingCharacters
  | none => pure ()

/-- Runs a reader on a whole text. -/
def run {α : Type} (r : Reader α) (s : String) : Except Error α :=
  match (do let a ← r; atEnd; pure a : Reader α) (.start s.toList) with
  | .ok (a, _) => .ok a
  | .error e => .error e

end Reader

/-- The JSON value a text holds, and nothing besides. -/
def Value.parse (s : String) : Except Error Value :=
  (Reader.run (Reader.anyValue Reader.greatestDepth) s).map Raw.toValue

end SecureLayout.Json
