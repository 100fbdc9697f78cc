import SecureLayout.Numeric.Double

/-!
Expressions and statements of templates. Every expression keeps the line it begins on, because a fault
while it is evaluated is reported at a line.
-/

namespace SecureLayout.Template

open Numeric

/-- Values that stand in a source. -/
inductive Literal where
  | none
  | bool (b : Bool)
  | int (n : Nat)
  | float (x : Double)
  | text (s : String)
  deriving DecidableEq, Repr

inductive UnaryOp where
  | not
  | negate
  deriving DecidableEq, Repr

inductive BinaryOp where
  | and | or
  | add | sub | mul | div | floorDiv | rem | pow
  | concat
  deriving DecidableEq, Repr

inductive Comparison where
  | eq | ne | lt | le | gt | ge
  | isIn | notIn
  deriving DecidableEq, Repr

mutual

inductive Expr where
  | var (line : Nat) (name : String)
  | literal (line : Nat) (value : Literal)
  | list (line : Nat) (items : List Expr)
  | map (line : Nat) (entries : List (Expr × Expr))
  | unary (line : Nat) (op : UnaryOp) (e : Expr)
  | binary (line : Nat) (op : BinaryOp) (a b : Expr)
  /-- Comparisons in a row hold when each of them holds. -/
  | compare (line : Nat) (first : Expr) (rest : List (Comparison × Expr))
  /-- Without an alternative the value is one that prints as nothing. -/
  | choice (line : Nat) (test yes : Expr) (no : Option Expr)
  /-- A filter; without an operand it works on the text of a block. -/
  | filter (line : Nat) (name : String) (operand : Option Expr) (args : List Arg)
  | test (line : Nat) (name : String) (operand : Expr) (args : List Arg)
  | attr (line : Nat) (e : Expr) (name : String)
  | item (line : Nat) (e key : Expr)
  | slice (line : Nat) (e : Expr) (start stop step : Option Expr)
  | call (line : Nat) (callee : Expr) (args : List Arg)

/-- An argument: by position, by name, or many at once from a list or a map. -/
inductive Arg where
  | positional (e : Expr)
  | named (name : String) (e : Expr)
  | spread (e : Expr)
  | spreadNamed (e : Expr)

end

instance : Inhabited Expr := ⟨.literal 0 .none⟩

namespace Expr

def line : Expr → Nat
  | var l _ => l
  | literal l _ => l
  | list l _ => l
  | map l _ => l
  | unary l _ _ => l
  | binary l _ _ _ => l
  | compare l _ _ => l
  | choice l _ _ _ => l
  | filter l _ _ _ => l
  | test l _ _ _ => l
  | attr l _ _ => l
  | item l _ _ => l
  | slice l _ _ _ _ => l
  | call l _ _ => l

/-- What kind of expression stands where a call was wanted. -/
def describe : Expr → String
  | var _ _ => "variable"
  | literal _ _ => "constant"
  | list _ _ => "list literal"
  | map _ _ => "map literal"
  | test _ _ _ _ => "test expression"
  | filter _ _ _ _ => "filter expression"
  | call _ _ _ => "call"
  | _ => "expression"

end Expr

/-- What a value is assigned to. -/
inductive Target where
  | name (line : Nat) (n : String)
  | attr (line : Nat) (e : Expr) (n : String)
  | list (line : Nat) (items : List Target)

mutual

inductive Stmt where
  | text (s : String)
  | emit (e : Expr)
  | forLoop (line : Nat) (loop : Loop)
  | ifThen (test : Expr) (yes no : List Stmt)
  | withValues (line : Nat) (bindings : List (Target × Expr)) (body : List Stmt)
  | set (line : Nat) (target : Target) (e : Expr)
  | setBlock (line : Nat) (target : Target) (filter : Option Expr) (body : List Stmt)
  | autoescape (mode : Expr) (body : List Stmt)
  | filterBlock (line : Nat) (filter : Expr) (body : List Stmt)
  | block (line : Nat) (name : String) (body : List Stmt)
  /-- The template is a variant of another one. -/
  | inherit (line : Nat) (name : Expr)
  | includeFile (line : Nat) (name : Expr) (ignoreMissing : Bool)
  | importAs (line : Nat) (name : Expr) (target : Target)
  | importNames (line : Nat) (name : Expr) (names : List (String × Option String))
  | define (line : Nat) (m : Macro)
  | callBlock (line : Nat) (call : Expr) (caller : Macro)
  | run (line : Nat) (call : Expr)

inductive Loop where
  | mk (target : Target) (subject : Expr) (keep : Option Expr) (recursive : Bool)
    (body other : List Stmt)

/-- A macro: its parameters with defaults of the last of them, and its body. -/
inductive Macro where
  | mk (line : Nat) (name : String) (params : List String) (defaults : List Expr) (body : List Stmt)

end

namespace Macro

def name : Macro → String
  | mk _ n _ _ _ => n

def params : Macro → List String
  | mk _ _ ps _ _ => ps

def body : Macro → List Stmt
  | mk _ _ _ _ b => b

/-- Parameters, each with its default; only the last ones have any. -/
def withDefaults : Macro → List (String × Option Expr)
  | mk _ _ ps ds _ => ps.zip (List.replicate (ps.length - ds.length) none ++ ds.map some)

end Macro

namespace Loop

def target : Loop → Target
  | mk t _ _ _ _ _ => t

def subject : Loop → Expr
  | mk _ e _ _ _ _ => e

/-- The condition that items must meet. -/
def keep : Loop → Option Expr
  | mk _ _ k _ _ _ => k

/-- Whether the body may call the loop. -/
def isRecursive : Loop → Bool
  | mk _ _ _ r _ _ => r

def body : Loop → List Stmt
  | mk _ _ _ _ b _ => b

/-- What runs instead when there is no item. -/
def other : Loop → List Stmt
  | mk _ _ _ _ _ o => o

end Loop

end SecureLayout.Template
