/-!
Blank characters of a text, trimming, and the two character classes that names are written in.
Main statement: trimming only takes away, so what is left is part of the text.
-/

namespace SecureLayout.Text

/-- The property `White_Space` of the Unicode standard: 25 characters, line separators included. -/
def isBlank (c : Char) : Bool :=
  let n := c.toNat
  (9 ≤ n && n ≤ 13) || n == 0x20 || n == 0x85 || n == 0xA0 || n == 0x1680 ||
    (0x2000 ≤ n && n ≤ 0x200A) || n == 0x2028 || n == 0x2029 || n == 0x202F ||
    n == 0x205F || n == 0x3000

/-- The blanks that separate tokens inside a tag: five ASCII characters, vertical tab not among them. -/
def isTokenBlank (c : Char) : Bool :=
  c == ' ' || c == '\t' || c == '\n' || c == '\r' || c == '\x0c'

/-- A line ends at either of these. -/
def isLineEnd (c : Char) : Bool :=
  c == '\n' || c == '\r'

/-- First character of a name: an ASCII letter or an underscore. -/
def isNameStart (c : Char) : Bool :=
  c.isAlpha || c == '_'

/-- Later characters of a name: digits are allowed too. -/
def isNamePart (c : Char) : Bool :=
  c.isAlphanum || c == '_'

/-- An ASCII identifier: never empty, never beginning with a digit. -/
def isIdentifier (s : String) : Bool :=
  match s.toList with
  | [] => false
  | c :: r => isNameStart c && r.all isNamePart

/-- The text without the blanks it begins with. -/
def trimStart (s : List Char) : List Char :=
  s.dropWhile isBlank

/-- The text without the longest tail on which `p` holds. -/
def dropTail (p : Char → Bool) (s : List Char) : List Char :=
  (s.reverse.dropWhile p).reverse

/-- The text without the blanks it ends with. -/
def trimEnd (s : List Char) : List Char :=
  dropTail isBlank s

def trim (s : List Char) : List Char :=
  trimEnd (trimStart s)

/-- No character but blanks. -/
def isBlankText (s : String) : Bool :=
  s.toList.all isBlank

/-- Octets that a text takes in UTF-8. -/
def byteLength (s : List Char) : Nat :=
  s.foldl (fun n c => n + c.utf8Size) 0

/-- The text after a given beginning, if it begins so. -/
def stripStart : List Char → List Char → Option (List Char)
  | [], s => some s
  | _ :: _, [] => none
  | p :: ps, c :: s => if p = c then stripStart ps s else none

/-- Splits at the first place where `mark` stands; the mark itself is dropped. -/
def splitAtMark (mark : List Char) : List Char → Option (List Char × List Char)
  | [] => (stripStart mark []).map fun r => ([], r)
  | c :: s =>
    match stripStart mark (c :: s) with
    | some r => some ([], r)
    | none => (splitAtMark mark s).map fun (l, r) => (c :: l, r)

/-- The pieces between the occurrences of `sep`; always at least one. -/
def splitOnChar (sep : Char) : List Char → List (List Char)
  | [] => [[]]
  | c :: s =>
    if c = sep then [] :: splitOnChar sep s
    else
      match splitOnChar sep s with
      | [] => [[c]]
      | piece :: pieces => (c :: piece) :: pieces

theorem splitOnChar_ne_nil (sep : Char) (s : List Char) : splitOnChar sep s ≠ [] := by
  cases s with
  | nil => simp [splitOnChar]
  | cons c s =>
    unfold splitOnChar
    split
    · simp
    · split <;> simp

theorem trimStart_suffix (s : List Char) : trimStart s <:+ s :=
  List.dropWhile_suffix isBlank

theorem dropTail_prefix (p : Char → Bool) (s : List Char) : dropTail p s <+: s := by
  have h := List.dropWhile_suffix (l := s.reverse) p
  simpa [dropTail] using List.reverse_prefix.2 h

theorem stripStart_eq_some {p s r : List Char} (h : stripStart p s = some r) : s = p ++ r := by
  induction p generalizing s with
  | nil => simpa [stripStart] using h
  | cons a p ih =>
    cases s with
    | nil => simp [stripStart] at h
    | cons c s =>
      unfold stripStart at h
      split at h
      · next hc => simp [hc, ih h]
      · cases h

end SecureLayout.Text
