import SecureLayout.Template.Directive
import SecureLayout.Template.Tag

/-!
Layout sources before they are compiled: component directives are replaced, and every loop body gets a
tick as its first statement. Everything else is copied. Main statement: a source of plain characters
is its own expansion.
-/

namespace SecureLayout.Template

/-- How far a source is expanded. -/
structure Expansion where
  /-- Copied text that a directive may still trim, the nearest character first. -/
  pending : List Char := []
  /-- Nothing stands before `pending` on its line. -/
  atLineStart : Bool := true
  line : Nat := 1
  /-- Loops that are open. -/
  loops : Nat := 0

namespace Expansion

/-- The pending text in front of a directive. Without a sign, indentation is dropped when nothing else
stands before the directive on its line. -/
def before (e : Expansion) : Mark → List Char
  | .minus => (e.pending.dropWhile Text.isBlank).reverse
  | .plus => e.pending.reverse
  | .none =>
    match e.pending.dropWhile fun c => c == ' ' || c == '\t' with
    | [] => if e.atLineStart then [] else e.pending.reverse
    | c :: r => if c = '\n' then (c :: r).reverse else e.pending.reverse

/-- How many characters after a directive are dropped: without a sign one line end, with a minus all
blanks. -/
def droppedAfter : Mark → List Char → Nat
  | .minus, s => (s.takeWhile Text.isBlank).length
  | .plus, _ => 0
  | .none, '\r' :: '\n' :: _ => 2
  | .none, '\n' :: _ => 1
  | .none, _ => 0

def copy (e : Expansion) (cs : List Char) : Expansion :=
  { e with pending := cs.reverse ++ e.pending, line := e.line + lineEnds cs }

/-- After a tag whose replacement is written out. -/
def afterTag (e : Expansion) (t : Tag) : Expansion :=
  { e with pending := [], atLineStart := false, line := e.line + lineEnds t.source }

/-- The statement that counts one loop body; it closes as the loop tag does. -/
def tick (trail : Mark) : List Char :=
  "\x7b% set __lg_tick = ".toList ++ (tickFunction.toList ++ ("() ".toList ++
    (trail.source ++ ['%', '\x7d'])))

end Expansion

/-- The plain characters that pieces begin with. -/
def leadingText : List Piece → List Char
  | .char c :: r => c :: leadingText r
  | _ => []

/-- What a tag is to the expansion. -/
inductive Role where
  | loop
  | endLoop
  | directive
  | other
  deriving DecidableEq, Repr

def Tag.role (t : Tag) : Role :=
  match t.kind with
  | .expr => .other
  | .block =>
    if t.keyword = "for".toList then .loop
    else if t.keyword = "endfor".toList then .endLoop
    else if t.keyword = "component".toList then .directive
    else .other

/-- Expands pieces; the next `skip` characters were dropped by the directive before them. -/
def expandPieces (p : SecurityPolicy) (registry : Option Component.Registry) :
    List Piece → Nat → Expansion → Result (List Char)
  | [], _, e => .ok e.pending.reverse
  | .char c :: r, skip + 1, e =>
    expandPieces p registry r skip
      { e with line := e.line + lineEnds [c], atLineStart := c == '\n' }
  | .char c :: r, 0, e => expandPieces p registry r 0 (e.copy [c])
  | .hidden cs :: r, _, e => expandPieces p registry r 0 (e.copy cs)
  | .tag t :: r, _, e =>
    match t.role with
    | .loop =>
      if p.maxDepth < e.loops + 1 then
        .error (.resourceExceeded ("loop nesting deeper than " ++ toString p.maxDepth ++
          " at line " ++ toString e.line))
      else do
        let after ← expandPieces p registry r 0 { e.afterTag t with loops := e.loops + 1 }
        return e.pending.reverse ++ (t.source ++ (Expansion.tick t.trail ++ after))
    | .endLoop => expandPieces p registry r 0 { e.copy t.source with loops := e.loops - 1 }
    | .directive =>
      match Directive.parse t.args with
      | .error message => .error (.badSyntax message (some e.line))
      | .ok d => do
        let skip := Expansion.droppedAfter t.trail (leadingText r)
        let after ← expandPieces p registry r skip (e.afterTag t)
        return e.before t.lead ++ ((d.replacement p registry).source ++ after)
    | .other => expandPieces p registry r 0 (e.copy t.source)

/-- The source that is compiled in the place of a layout source. -/
def expand (p : SecurityPolicy) (registry : Option Component.Registry) (source : List Char) :
    Result (List Char) := do
  expandPieces p registry (← scan source) 0 {}

/-- Neither a loop, its end nor a directive. -/
def Piece.isPlain : Piece → Bool
  | tag t => t.role == .other
  | _ => true

theorem expandPieces_plain (p : SecurityPolicy) (registry : Option Component.Registry)
    (ps : List Piece) (h : ∀ q ∈ ps, q.isPlain = true) (e : Expansion) :
    expandPieces p registry ps 0 e = .ok (e.pending.reverse ++ ps.flatMap Piece.source) := by
  induction ps generalizing e with
  | nil => simp [expandPieces]
  | cons q ps ih =>
    have hq := h q (by simp)
    have ih := fun e => ih (fun x hx => h x (List.mem_cons_of_mem _ hx)) e
    cases q with
    | char c => simp [expandPieces, ih, Expansion.copy, Piece.source]
    | hidden cs => simp [expandPieces, ih, Expansion.copy, Piece.source]
    | tag t =>
      have hr : t.role = .other := by simpa [Piece.isPlain] using hq
      simp [expandPieces, hr, ih, Expansion.copy, Piece.source]

end SecureLayout.Template
