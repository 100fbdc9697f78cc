import SecureLayout.Text.Blank
import SecureLayout.Text.Case
import SecureLayout.Text.Word

/-!
Patterns of characters and where they end. `Pattern.ends` gives every place that a match from a
given place may reach; a text matches when some place in it has one.
-/

namespace SecureLayout

/-- Sets of characters. -/
inductive CharSet where
  | range (first last : Char)
  /-- Characters between first and last code points. -/
  | listed (spans : List (Nat × Nat))
  /-- The same set with case overlooked. -/
  | folded (a : CharSet)
  | word
  | digit
  | blank
  | asciiWord
  | asciiDigit
  | asciiBlank
  | none
  | union (a b : CharSet)
  | inter (a b : CharSet)
  | compl (a : CharSet)
  deriving Repr, DecidableEq

namespace CharSet

def inRange (first last c : Char) : Bool :=
  first.toNat ≤ c.toNat && c.toNat ≤ last.toNat

/-- Letters that count as one when case is overlooked; the long s and the Kelvin sign have no other way back. -/
def variants (c : Char) : List Char :=
  let base := c :: (Text.upperChar c ++ Text.lowerChar c)
  if c == 's' || c == 'S' then Char.ofNat 0x17F :: base
  else if c == 'k' || c == 'K' then Char.ofNat 0x212A :: base
  else base ++ base.flatMap Text.lowerChar

def contains : CharSet → Char → Bool
  | range a b, c => inRange a b c
  | listed spans, c => spans.any fun (first, last) => first ≤ c.toNat && c.toNat ≤ last
  | folded a, c => (variants c).any fun d => a.contains d
  | word, c => Text.isWord c
  | digit, c => Text.isDigit c
  | blank, c => Text.isBlank c
  | asciiWord, c => Text.isNamePart c
  | asciiDigit, c => c.isDigit
  | asciiBlank, c => Text.isTokenBlank c || c == '\x0b'
  | none, _ => false
  | union a b, c => a.contains c || b.contains c
  | inter a b, c => a.contains c && b.contains c
  | compl a, c => !a.contains c

end CharSet

/-- A place in a text: the character before it and all characters after it. -/
structure Place where
  prev : Option Char
  rest : List Char
  deriving DecidableEq, Repr

namespace Place

def start (s : List Char) : Place := ⟨.none, s⟩

/-- Every place of a text from the given one on. -/
def onwards (prev : Option Char) : List Char → List Place
  | [] => [⟨prev, []⟩]
  | c :: r => ⟨prev, c :: r⟩ :: onwards (some c) r

end Place

/-- Conditions on a place that take no character. -/
inductive Edge where
  | textStart
  | textEnd
  | lineStart
  | lineEnd
  | word (ascii : Bool)
  | notWord (ascii : Bool)
  | wordStart (ascii : Bool)
  | wordEnd (ascii : Bool)
  /-- No word character before the place, whatever follows. -/
  | wordStartHalf (ascii : Bool)
  /-- No word character after the place, whatever precedes. -/
  | wordEndHalf (ascii : Bool)
  deriving Repr, DecidableEq

namespace Edge

def isWordBeside (ascii : Bool) (c : Option Char) : Bool :=
  match c with
  | some c => if ascii then Text.isNamePart c else Text.isWord c
  | none => false

def holds (p : Place) : Edge → Bool
  | textStart => p.prev.isNone
  | textEnd => p.rest.isEmpty
  | lineStart => p.prev.isNone || p.prev == some '\n'
  | lineEnd => p.rest.isEmpty || p.rest.head? == some '\n'
  | word a => isWordBeside a p.prev != isWordBeside a p.rest.head?
  | notWord a => isWordBeside a p.prev == isWordBeside a p.rest.head?
  | wordStart a => !isWordBeside a p.prev && isWordBeside a p.rest.head?
  | wordEnd a => isWordBeside a p.prev && !isWordBeside a p.rest.head?
  | wordStartHalf a => !isWordBeside a p.prev
  | wordEndHalf a => !isWordBeside a p.rest.head?

end Edge

inductive Pattern where
  | empty
  | one (set : CharSet)
  | edge (e : Edge)
  | seq (a b : Pattern)
  | either (a b : Pattern)
  /-- At least `least` rounds, and no more than `most` where that is given. -/
  | rounds (a : Pattern) (least : Nat) (most : Option Nat)
  deriving Repr, DecidableEq

namespace Pattern

/-- Adds places that are not there yet. -/
def addPlaces (seen new : List Place) : List Place :=
  new.foldl (fun acc p => if acc.contains p then acc else acc ++ [p]) seen

/-- The places one step leads to from any of the given ones. -/
def advance (step : Place → List Place) (ps : List Place) : List Place :=
  ps.foldl (fun acc p => addPlaces acc (step p)) []

/-- Exactly `n` steps. -/
def steps (step : Place → List Place) : Nat → List Place → List Place
  | 0, ps => ps
  | n + 1, ps => steps step n (advance step ps)

/-- At most `n` steps. -/
def upTo (step : Place → List Place) : Nat → List Place → List Place
  | 0, ps => ps
  | n + 1, ps => upTo step n (addPlaces ps (advance step ps))

/-- Where matches from a place end. More rounds than characters reach nothing new, so counts are cut
to one above the length of the rest. -/
def ends : Pattern → Place → List Place
  | empty, p => [p]
  | one set, p =>
    match p.rest with
    | [] => []
    | c :: r => if set.contains c then [⟨some c, r⟩] else []
  | edge e, p => if e.holds p then [p] else []
  | seq a b, p => advance (ends b) (ends a p)
  | either a b, p => addPlaces (ends a p) (ends b p)
  | rounds a least most, p =>
    let cap := p.rest.length + 1
    let first := steps (ends a) (min least cap) [p]
    match most with
    | none => upTo (ends a) cap first
    | some m => upTo (ends a) (min (m - least) cap) first

/-- Some part of the text matches. -/
def isMatch (p : Pattern) (s : String) : Bool :=
  (Place.onwards none s.toList).any fun q => !(p.ends q).isEmpty

/-- The whole text matches, from the first character to the last. -/
def isWholeMatch (p : Pattern) (s : String) : Bool :=
  (p.ends (.start s.toList)).any fun q => q.rest.isEmpty

theorem mem_addPlaces (seen new : List Place) (p : Place) :
    p ∈ addPlaces seen new ↔ p ∈ seen ∨ p ∈ new := by
  induction new generalizing seen with
  | nil => simp [addPlaces]
  | cons q new ih =>
    have h : addPlaces seen (q :: new) =
        addPlaces (if seen.contains q then seen else seen ++ [q]) new := rfl
    rw [h, ih]
    by_cases hq : seen.contains q
    · have hm : q ∈ seen := by simpa using hq
      simp only [hq, ↓reduceIte, List.mem_cons]
      constructor
      · rintro (h | h)
        · exact .inl h
        · exact .inr (.inr h)
      · rintro (h | rfl | h)
        · exact .inl h
        · exact .inl hm
        · exact .inr h
    · simp only [hq, Bool.false_eq_true, ↓reduceIte, List.mem_append, List.mem_cons,
        List.not_mem_nil, or_false]
      constructor
      · rintro ((h | h) | h)
        · exact .inl h
        · exact .inr (.inl h)
        · exact .inr (.inr h)
      · rintro (h | h | h)
        · exact .inl (.inl h)
        · exact .inl (.inr h)
        · exact .inr h

end Pattern

end SecureLayout
