import SecureLayout.Component.Registry
import SecureLayout.Policy.Engine
import SecureLayout.Template.Arithmetic
import SecureLayout.Template.Budget
import SecureLayout.Template.Directive
import SecureLayout.Template.Filter
import SecureLayout.Template.Names

/-!
The state of a render: scopes, values by reference, output and budget. A computation answers a value or
an error and leaves a state behind in either case, because the budget is asked for after an error too.
Main statement: placing an error at an expression changes neither its kind nor the state.
-/

namespace SecureLayout.Template

/-! ### Values by reference -/

/-- What a loop body sees as `loop`. -/
structure LoopState where
  index0 : Nat := 0
  length : Nat
  depth0 : Nat
  previous : Option Value := none
  next : Option Value := none
  /-- Arguments of the last call that found a change. -/
  lastSeen : Option (List Value) := none

/-- A macro together with where it was defined. -/
structure Closure where
  decl : Macro
  /-- Names that it took along. -/
  captured : Option Nat
  template : String
  usesCaller : Bool

inductive Cell where
  | loop (s : LoopState)
  | space (entries : Entries Value)
  | names (entries : Entries Value)
  | macro_ (c : Closure)

namespace Cell

/-- Changes the state of a loop. -/
def mapLoop (f : LoopState → LoopState) : Cell → Cell
  | loop s => loop (f s)
  | c => c

/-- Changes the entries of a namespace. -/
def mapSpace (f : Entries Value → Entries Value) : Cell → Cell
  | space es => space (f es)
  | c => c

/-- Changes the names that macros share. -/
def mapNames (f : Entries Value → Entries Value) : Cell → Cell
  | names es => names (f es)
  | c => c

/-- Text of a value by reference; values inside it may be references too. -/
def textIn (heap : List Cell) : Nat → Nat → List Char
  | 0, _ => []
  | fuel + 1, i =>
    match heap[i]? with
    | some (.loop l) => "<loop ".toList ++ (Nat.toDigits 10 l.index0 ++
        ('/' :: (Nat.toDigits 10 l.length ++ ['>'])))
    | some (.space es) => (Value.ofEntries es).renderInner (textIn heap fuel)
    | some (.names _) => []
    | some (.macro_ c) => "<macro ".toList ++ (c.decl.name.toList ++ ['>'])
    | none => []

end Cell

/-! ### Scopes -/

/-- Where names are looked for after those of the scope itself. -/
inductive Base where
  | empty
  | data
  | captured (ref : Nat)
  deriving DecidableEq, Repr

structure LoopScope where
  ref : Nat
  /-- The loop itself if its body may call it. -/
  again : Option Loop

structure Scope where
  locals : Entries Value := []
  base : Base := .empty
  loop : Option LoopScope := none
  /-- Names that macros defined here share. -/
  captured : Option Nat := none

/-- A body and the template it stands in. -/
structure Body where
  template : String
  stmts : List Stmt

/-- Bodies of one block, those of the variant before those of what it varies. -/
structure BlockStack where
  bodies : List Body
  /-- Which of them runs. -/
  current : Nat := 0

/-- What is put back when a call returns. -/
structure Context where
  /-- The innermost scope first. -/
  scopes : List Scope
  /-- Depth of the scopes around the oldest one. -/
  outerDepth : Nat := 0
  out : String := ""
  /-- Output is dropped. -/
  discarding : Bool := false
  template : String
  escape : Bool := true
  blocks : Entries BlockStack := []
  currentBlock : Option String := none
  /-- What runs after the body because it is a variant of it. -/
  parent : Option Body := none
  /-- Templates that take part in the inheritance. -/
  loaded : List String := []

structure Machine where
  context : Context
  heap : List Cell := []
  budget : Budget
  /-- Loop bodies entered. -/
  entered : Nat := 0
  /-- Loop bodies that had been entered when output was written last. -/
  lastWrite : Nat := 0

/-- What stays the same during a render. -/
structure World where
  templates : Entries (List Stmt)
  policy : SecurityPolicy
  registry : Option Component.Registry
  data : Value

/-- Names of the functions that every template may call. -/
def builtin? (name : String) : Option Builtin :=
  match name with
  | "range" => some .range
  | "namespace" => some .namespace_
  | name =>
    if name == placeholderFunction then some .component
    else if name == tickFunction then some .tick
    else none

namespace Machine

/-- Text of a value by reference. -/
def objectText (m : Machine) : Nat → List Char :=
  Cell.textIn m.heap (m.heap.length + 1)

def setting (m : Machine) : Filter.Setting :=
  ⟨m.objectText, m.context.escape⟩

def depth (m : Machine) : Nat :=
  m.context.outerDepth + m.context.scopes.length

def baseValue? (m : Machine) (w : World) (name : String) : Base → Option Value
  | .empty => none
  | .data => w.data.attr? name
  | .captured i =>
    match m.heap[i]? with
    | some (.names es) => Entries.get? name es
    | _ => none

/-- Names of a scope hide the loop, and the loop hides what lies under the scope. -/
def scopeValue? (m : Machine) (w : World) (name : String) (s : Scope) : Option Value :=
  match Entries.get? name s.locals with
  | some v => some v
  | none =>
    match s.loop with
    | some l => if name == "loop" then some (.object .loop l.ref) else m.baseValue? w name s.base
    | none => m.baseValue? w name s.base

/-- The innermost value of a name. -/
def lookup? (m : Machine) (w : World) (name : String) : Option Value :=
  (m.context.scopes.findSome? (m.scopeValue? w name)).or ((builtin? name).map .function)

def updateCell (m : Machine) (i : Nat) (f : Cell → Cell) : Machine :=
  { m with heap := m.heap.modify i f }

/-- Gives a name a value in what the macros of a scope share. -/
def share (m : Machine) (s : Scope) (name : String) (v : Value) : Machine :=
  match s.captured with
  | some i => m.updateCell i (.mapNames (Entries.put name v))
  | none => m

/-- The same state with other scopes. -/
def withScopes (m : Machine) (scopes : List Scope) : Machine :=
  { m with context := { m.context with scopes } }

/-- Gives a name a value in the innermost scope, and in what the macros of that scope share. -/
def store (m : Machine) (name : String) (v : Value) : Machine :=
  match m.context.scopes with
  | [] => m
  | top :: r => (m.share top name v).withScopes ({ top with locals := Entries.put name v top.locals } :: r)

def alloc (m : Machine) (c : Cell) : Nat × Machine :=
  (m.heap.length, { m with heap := m.heap ++ [c] })

/-- What the macros of the innermost scope share; it is made if there is none yet. -/
def shared (m : Machine) (top : Scope) (r : List Scope) : Nat × Machine :=
  match top.captured with
  | some i => (i, m)
  | none =>
    let (i, m) := m.alloc (.names [])
    (i, m.withScopes ({ top with captured := some i } :: r))

/-- Takes a name along for the macros of the innermost scope, unless it was taken before. -/
def enclose (m : Machine) (w : World) (name : String) : Machine :=
  match m.context.scopes with
  | [] => m
  | top :: r =>
    let (i, m) := m.shared top r
    let v := (m.lookup? w name).getD (.undefined false)
    m.updateCell i (.mapNames fun es => if Entries.contains name es then es else Entries.put name v es)

/-- The innermost loop that a body may name. -/
def currentLoop? (m : Machine) : Option LoopScope :=
  m.context.scopes.findSome? (·.loop)

end Machine

/-! ### Computations -/

abbrev Eval (α : Type) := ExceptT Error (StateM Machine) α

namespace Eval

variable {α : Type}

/-- Errors of a computation are placed at a line of the current template unless they have a place. -/
def atLine (line : Nat) (x : Eval α) : Eval α :=
  fun m =>
    match x m with
    | (.error e, m') => (.error (e.atSite ⟨m.context.template, line⟩), m')
    | r => r

/-- Errors are placed at the line of an expression. -/
def atExpr (e : Expr) (x : Eval α) : Eval α :=
  fun m =>
    match x m with
    | (.error err, m') => (.error (err.atSite ⟨m.context.template, e.lastLine⟩), m')
    | r => r

theorem atExpr_eq_atLine (e : Expr) (x : Eval α) : atExpr e x = atLine e.lastLine x := rfl

theorem atLine_snd (line : Nat) (x : Eval α) (m : Machine) : (atLine line x m).2 = (x m).2 := by
  unfold atLine
  split
  · next h => simp [h]
  · rfl

def lift (r : Except Error α) : Eval α := fun m => (r, m)

/-- The first fault of a result that depends on the state. -/
def ask (f : Machine → Except Error α) : Eval α := fun m => (f m, m)

def context : Eval Context := fun m => (.ok m.context, m)

def change (f : Context → Context) : Eval Unit :=
  fun m => (.ok (), { m with context := f m.context })

def store (name : String) (v : Value) : Eval Unit :=
  fun m => (.ok (), m.store name v)

def enclose (w : World) (name : String) : Eval Unit :=
  fun m => (.ok (), m.enclose w name)

def updateCell (i : Nat) (f : Cell → Cell) : Eval Unit :=
  fun m => (.ok (), m.updateCell i f)

def alloc (c : Cell) : Eval Nat :=
  fun m =>
    let (i, m) := m.alloc c
    (.ok i, m)

/-- Adds to the output unless it is dropped. -/
def write (s : String) : Eval Unit :=
  fun m =>
    if m.context.discarding then (.ok (), m)
    else (.ok (), { m with context := { m.context with out := m.context.out ++ s }, lastWrite := m.entered })

/-- Writes a value out. -/
def emit (v : Value) : Eval Unit := do
  if v.isMissing then throw .undefinedValue
  let m ← get
  write (String.ofList (v.printed m.objectText m.context.escape))

/-- Scopes may stand in each other this deep. -/
def greatestDepth : Nat := 500

def tooDeep : Error := .invalid "recursion limit exceeded"

def push (s : Scope) : Eval Unit := do
  let m ← get
  if greatestDepth < m.depth then throw tooDeep
  change fun c => { c with scopes := s :: c.scopes }

def pop : Eval Unit :=
  change fun c => { c with scopes := c.scopes.drop 1 }

/-- Runs in a scope of its own. -/
def inScope (s : Scope) (x : Eval α) : Eval α := do
  push s
  let a ← x
  pop
  return a

/-- The output of a computation as text. -/
def capture (x : Eval Unit) : Eval String := do
  let c ← context
  change fun c => { c with out := "", discarding := false }
  x
  let s := (← context).out
  change fun d => { d with out := c.out, discarding := c.discarding }
  return s

/-- Captured text is markup already when output is escaped. -/
def captured (s : String) : Eval Value := do
  return .text s (← context).escape

/-- Runs in a context of its own and puts the old one back; answers the output. -/
def isolated (f : Context → Context) (x : Eval Unit) : Eval String := do
  let c ← context
  change f
  x
  let s := (← context).out
  change fun _ => c
  return s

/-- Counts a loop body on the way in. -/
def enterBody : Eval Unit :=
  fun m => (.ok (), { m with entered := m.entered + 1 })

/-- Asks the budget for one more loop body. -/
def tick : Eval Unit :=
  fun m =>
    let (r, b) := m.budget.tick
    (r, { m with budget := b })

end Eval

end SecureLayout.Template
