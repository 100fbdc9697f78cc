import SecureLayout.Template.Tree

/-!
How deep the parts of a template stand in each other. A template that nests deeper is given more room to be evaluated.
-/

namespace SecureLayout.Template

mutual

/-- Expressions around the innermost one. -/
def Expr.depth : Expr → Nat
  | .var _ _ => 0
  | .literal _ _ => 0
  | .list _ es => exprsDepth es + 1
  | .map _ es => pairsDepth es + 1
  | .unary _ _ e => e.depth + 1
  | .binary _ _ a b => max a.depth b.depth + 1
  | .compare _ e r => max e.depth (comparisonsDepth r) + 1
  | .choice _ t y n => max (max t.depth y.depth) (optionalDepth n) + 1
  | .filter _ _ e args => max (optionalDepth e) (argsDepth args) + 1
  | .test _ _ e args => max e.depth (argsDepth args) + 1
  | .attr _ e _ => e.depth + 1
  | .item _ e k => max e.depth k.depth + 1
  | .slice _ e a b c => max (max e.depth (optionalDepth a)) (max (optionalDepth b) (optionalDepth c)) + 1
  | .call _ f args => max f.depth (argsDepth args) + 1

def Arg.depth : Arg → Nat
  | .positional e => e.depth
  | .named _ e => e.depth
  | .spread e => e.depth
  | .spreadNamed e => e.depth

def optionalDepth : Option Expr → Nat
  | none => 0
  | some e => e.depth

def exprsDepth : List Expr → Nat
  | [] => 0
  | e :: r => max e.depth (exprsDepth r)

def pairsDepth : List (Expr × Expr) → Nat
  | [] => 0
  | (k, e) :: r => max (max k.depth e.depth) (pairsDepth r)

def comparisonsDepth : List (Comparison × Expr) → Nat
  | [] => 0
  | (_, e) :: r => max e.depth (comparisonsDepth r)

def argsDepth : List Arg → Nat
  | [] => 0
  | a :: r => max a.depth (argsDepth r)

end

mutual

def Target.depth : Target → Nat
  | .name _ _ => 0
  | .attr _ e _ => e.depth + 1
  | .list _ ts => targetsDepth ts + 1

def targetsDepth : List Target → Nat
  | [] => 0
  | t :: r => max t.depth (targetsDepth r)

end

def bindingsDepth : List (Target × Expr) → Nat
  | [] => 0
  | (t, e) :: r => max (max t.depth e.depth) (bindingsDepth r)

mutual

/-- Statements and expressions around the innermost one. -/
def Stmt.depth : Stmt → Nat
  | .text _ => 0
  | .emit e => e.depth + 1
  | .forLoop _ (.mk target subject keep _ body other) =>
    max (max target.depth subject.depth) (max (optionalDepth keep) (max (stmtsDepth body) (stmtsDepth other))) + 1
  | .ifThen test yes no => max test.depth (max (stmtsDepth yes) (stmtsDepth no)) + 1
  | .withValues _ bindings body => max (bindingsDepth bindings) (stmtsDepth body) + 1
  | .set _ target e => max target.depth e.depth + 1
  | .setBlock _ target filter body => max (max target.depth (optionalDepth filter)) (stmtsDepth body) + 1
  | .autoescape mode body => max mode.depth (stmtsDepth body) + 1
  | .filterBlock _ filter body => max filter.depth (stmtsDepth body) + 1
  | .block _ _ body => stmtsDepth body + 1
  | .inherit _ e => e.depth + 1
  | .includeFile _ e _ => e.depth + 1
  | .importAs _ e target => max e.depth target.depth + 1
  | .importNames _ e _ => e.depth + 1
  | .define _ m => m.depth + 1
  | .callBlock _ e m => max e.depth m.depth + 1
  | .run _ e => e.depth + 1

def Macro.depth : Macro → Nat
  | .mk _ _ _ defaults body => max (exprsDepth defaults) (stmtsDepth body)

def stmtsDepth : List Stmt → Nat
  | [] => 0
  | s :: r => max s.depth (stmtsDepth r)

end

end SecureLayout.Template
