import SecureLayout.Proofs.Template.Coded
import SecureLayout.Template.Token

/-!
The shape of the token streams that templates have. Main statement: a stream keeps its shape behind a
complete tag, and has none if it breaks off inside a tag.
-/

namespace SecureLayout.Template

/-- Tokens that stand inside tags. -/
def Token.isWord : Token → Bool
  | .name _ => true
  | .string _ => true
  | .int _ => true
  | .float _ => true
  | .symbol _ => true
  | _ => false

def TagKind.startToken : TagKind → Token
  | .block => .blockStart
  | .expr => .exprStart

/-- The depth of brackets after a token; nothing where a bracket closes that was not opened. -/
def Token.depth? (d : Nat) : Token → Option Nat
  | .symbol .parenOpen => some (d + 1)
  | .symbol .bracketOpen => some (d + 1)
  | .symbol .braceOpen => some (d + 1)
  | .symbol .parenClose => if d = 0 then none else some (d - 1)
  | .symbol .bracketClose => if d = 0 then none else some (d - 1)
  | .symbol .braceClose => if d = 0 then none else some (d - 1)
  | _ => some d

/-- A colon follows before a bracket closes that was not opened. -/
def KeyEnds : Nat → List Token → Prop
  | _, [] => False
  | d, t :: ts => (t = .symbol .colon ∧ d = 0) ∨
      match t.depth? d with
      | some d' => KeyEnds d' ts
      | none => False

/-- What follows the brace of a map: its end, or a key with a colon behind it. -/
def MapFollows (ts : List Token) : Prop :=
  ∀ r, ts = .symbol .braceOpen :: r → r.head? = some (.symbol .braceClose) ∨ KeyEnds 0 r

/-- First words of statements and of the tags that end them. -/
def statementWords : List String :=
  ["for", "if", "with", "set", "autoescape", "filter", "block", "extends", "include", "import", "from",
    "macro", "call", "do", "endfor", "else", "elif", "endif", "endwith", "endset", "endautoescape",
    "endfilter", "endblock", "endmacro", "endcall"]

/-- The stream of a template, from a place between tags or inside a tag. -/
inductive Shaped : Bool → List Token → Prop
  | nil : Shaped false []
  | data {s : String} {ts : List Token} (h : Shaped false ts) : Shaped false (.data s :: ts)
  | expr {ts : List Token} (hk : MapFollows ts) (h : Shaped true ts) : Shaped false (.exprStart :: ts)
  | block {w : String} {ts : List Token} (hw : w ∈ statementWords) (h : Shaped true ts) :
      Shaped false (.blockStart :: .name w :: ts)
  | word {t : Token} {ts : List Token} (ht : t.isWord = true) (h : Shaped true ts) : Shaped true (t :: ts)
  | exprEnd {ts : List Token} (h : Shaped false ts) : Shaped true (.exprEnd :: ts)
  | blockEnd {ts : List Token} (h : Shaped false ts) : Shaped true (.blockEnd :: ts)

namespace Shaped

/-- No template breaks off inside a tag. -/
theorem not_words {ws : List Token} (hw : ∀ t ∈ ws, t.isWord = true) : ¬ Shaped true ws := by
  intro h
  induction ws with
  | nil => cases h
  | cons t ws ih =>
    have ht := hw t List.mem_cons_self
    cases h with
    | word _ h => exact ih (fun a ha => hw a (List.mem_cons_of_mem _ ha)) h
    | exprEnd => cases ht
    | blockEnd => cases ht

theorem of_words {ws ts : List Token} (hw : ∀ t ∈ ws, t.isWord = true) (h : Shaped true (ws ++ ts)) :
    Shaped true ts := by
  induction ws with
  | nil => exact h
  | cons t ws ih =>
    have ht := hw t List.mem_cons_self
    have ih := ih fun a ha => hw a (List.mem_cons_of_mem _ ha)
    cases h with
    | word _ h => exact ih h
    | exprEnd => cases ht
    | blockEnd => cases ht

theorem append_words {ws ts : List Token} (hw : ∀ t ∈ ws, t.isWord = true) (h : Shaped true ts) :
    Shaped true (ws ++ ts) := by
  induction ws with
  | nil => exact h
  | cons t ws ih => exact .word (hw t List.mem_cons_self) (ih fun a ha => hw a (List.mem_cons_of_mem _ ha))

/-- Inside a tag, whatever it begins with. -/
theorem of_start {kind : TagKind} {ts : List Token} (h : Shaped false (kind.startToken :: ts)) :
    Shaped true ts := by
  cases kind with
  | block =>
    cases h with
    | block hw h => exact .word rfl h
  | expr =>
    cases h with
    | expr _ h => exact h

theorem of_end {kind : TagKind} {ts : List Token} (h : Shaped true (Lexer.endToken kind :: ts)) :
    Shaped false ts := by
  cases kind with
  | block =>
    cases h with
    | word ht _ => cases ht
    | blockEnd h => exact h
  | expr =>
    cases h with
    | word ht _ => cases ht
    | exprEnd h => exact h

/-- Behind a complete tag the stream has its shape again. -/
theorem of_tag {kind : TagKind} {ws ts : List Token} (hw : ∀ t ∈ ws, t.isWord = true)
    (h : Shaped false (kind.startToken :: (ws ++ Lexer.endToken kind :: ts))) : Shaped false ts :=
  (of_words hw h.of_start).of_end

end Shaped

theorem WordAt.isWord {s : List Char} {t : Token} {n : Nat} (h : WordAt s t n) : t.isWord = true := by
  cases h with
  | symbol => rfl
  | string => rfl
  | number _ hn => rcases number_token hn with ⟨k, rfl⟩ | ⟨x, rfl⟩ <;> rfl
  | name => rfl

theorem Coded.isWord {kind : TagKind} {d : Nat} {s rest : List Char} {ws : List Token} {mark : Mark}
    (h : Coded kind d s ws mark rest) : ∀ t ∈ ws, t.isWord = true := by
  induction h with
  | close => exact fun _ ht => absurd ht List.not_mem_nil
  | blank _ _ ih => exact ih
  | word _ hw _ ih =>
    intro t ht
    rcases List.mem_cons.1 ht with rfl | ht
    · exact hw.isWord
    · exact ih t ht

end SecureLayout.Template
