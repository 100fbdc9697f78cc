import SecureLayout.Template.Tree

/-!
Names in templates: which blocks a template defines, and which names the body of a macro takes from
where it is defined.
-/

namespace SecureLayout.Template

mutual

/-- Blocks of a template, wherever they stand outside macros. -/
def Stmt.blocks : Stmt → List (String × List Stmt)
  | .forLoop _ (.mk _ _ _ _ body other) => blocksOf body ++ blocksOf other
  | .ifThen _ yes no => blocksOf yes ++ blocksOf no
  | .withValues _ _ body => blocksOf body
  | .setBlock _ _ _ body => blocksOf body
  | .autoescape _ body => blocksOf body
  | .filterBlock _ _ body => blocksOf body
  | .block _ name body => (name, body) :: blocksOf body
  | _ => []

def blocksOf : List Stmt → List (String × List Stmt)
  | [] => []
  | s :: r => s.blocks ++ blocksOf r

end

/-- Names met so far: free ones, and those assigned in the scopes around, innermost first. -/
structure NameScan where
  free : List String := []
  scopes : List (List String) := [[]]

namespace NameScan

def isAssigned (s : NameScan) (n : String) : Bool :=
  s.scopes.any (·.contains n)

def use (s : NameScan) (n : String) : NameScan :=
  if s.isAssigned n || s.free.contains n then s else { s with free := s.free ++ [n] }

def assign (s : NameScan) (n : String) : NameScan :=
  match s.scopes with
  | [] => { s with scopes := [[n]] }
  | top :: r => { s with scopes := (n :: top) :: r }

def push (s : NameScan) : NameScan :=
  { s with scopes := [] :: s.scopes }

def pop (s : NameScan) : NameScan :=
  { s with scopes := s.scopes.drop 1 }

end NameScan

mutual

def Expr.scanNames : Expr → NameScan → NameScan
  | .var _ n, s => s.use n
  | .literal _ _, s => s
  | .list _ es, s => scanExprs es s
  | .map _ es, s => scanPairs es s
  | .unary _ _ e, s => e.scanNames s
  | .binary _ _ a b, s => b.scanNames (a.scanNames s)
  | .compare _ e r, s => scanComparisons r (e.scanNames s)
  | .choice _ t y n, s => scanOptional n (y.scanNames (t.scanNames s))
  | .filter _ _ e args, s => scanArgs args (scanOptional e s)
  | .test _ _ e args, s => scanArgs args (e.scanNames s)
  | .attr _ e _, s => e.scanNames s
  | .item _ e k, s => k.scanNames (e.scanNames s)
  | .slice _ e a b c, s => scanOptional c (scanOptional b (scanOptional a (e.scanNames s)))
  | .call _ f args, s => scanArgs args (f.scanNames s)

def Arg.scanNames : Arg → NameScan → NameScan
  | .positional e, s => e.scanNames s
  | .named _ e, s => e.scanNames s
  | .spread e, s => e.scanNames s
  | .spreadNamed e, s => e.scanNames s

def scanOptional : Option Expr → NameScan → NameScan
  | none, s => s
  | some e, s => e.scanNames s

def scanExprs : List Expr → NameScan → NameScan
  | [], s => s
  | e :: r, s => scanExprs r (e.scanNames s)

def scanPairs : List (Expr × Expr) → NameScan → NameScan
  | [], s => s
  | (k, e) :: r, s => scanPairs r (e.scanNames (k.scanNames s))

def scanComparisons : List (Comparison × Expr) → NameScan → NameScan
  | [], s => s
  | (_, e) :: r, s => scanComparisons r (e.scanNames s)

def scanArgs : List Arg → NameScan → NameScan
  | [], s => s
  | a :: r, s => scanArgs r (a.scanNames s)

end

mutual

def Target.scanAssigned : Target → NameScan → NameScan
  | .name _ n, s => s.assign n
  | .attr _ e _, s => e.scanNames s
  | .list _ ts, s => scanTargets ts s

def scanTargets : List Target → NameScan → NameScan
  | [], s => s
  | t :: r, s => scanTargets r (t.scanAssigned s)

end

mutual

def Stmt.scanNames : Stmt → NameScan → NameScan
  | .text _, s => s
  | .emit e, s => e.scanNames s
  | .forLoop _ (.mk target subject keep _ body other), s =>
    let s := target.scanAssigned ((subject.scanNames s.push).assign "loop")
    let s := (scanStmts body (scanOptional keep s)).pop
    (scanStmts other s.push).pop
  | .ifThen test yes no, s =>
    let s := (scanStmts yes (test.scanNames s).push).pop
    (scanStmts no s.push).pop
  | .withValues _ bindings body, s => (scanStmts body (scanBindings bindings s.push)).pop
  | .set _ target e, s => e.scanNames (target.scanAssigned s)
  | .setBlock _ target filter body, s =>
    scanOptional filter (scanStmts body (target.scanAssigned s).push).pop
  | .autoescape mode body, s => (scanStmts body (mode.scanNames s).push).pop
  | .filterBlock _ filter body, s => filter.scanNames (scanStmts body s.push).pop
  | .block _ _ body, s => (scanStmts body s.push).pop
  | .inherit _ e, s => e.scanNames s
  | .includeFile _ e _, s => e.scanNames s
  | .importAs _ e target, s => target.scanAssigned (e.scanNames s)
  | .importNames _ e names, s =>
    names.foldl (fun s n => s.assign (n.2.getD n.1)) (e.scanNames s)
  | .define _ (.mk _ name params defaults body), s =>
    (scanStmts body (scanExprs defaults (params.foldl NameScan.assign (s.assign name).push))).pop
  | .callBlock _ e (.mk _ _ params defaults body), s =>
    (scanStmts body (scanExprs defaults (params.foldl NameScan.assign (e.scanNames s).push))).pop
  | .run _ e, s => e.scanNames s

def scanBindings : List (Target × Expr) → NameScan → NameScan
  | [], s => s
  | (t, e) :: r, s => scanBindings r (e.scanNames (t.scanAssigned s))

def scanStmts : List Stmt → NameScan → NameScan
  | [], s => s
  | x :: r, s => scanStmts r (x.scanNames s)

end

/-- Names that the body of a macro uses and does not assign itself. -/
def Macro.freeNames : Macro → List String
  | .mk _ _ params defaults body =>
    (scanStmts body (scanExprs defaults (params.foldl NameScan.assign {}))).free

/-! ### Lines -/

mutual

/-- Whether an expression is put together from values in the source alone. -/
def Expr.isConstant : Expr → Bool
  | .literal _ _ => true
  | .list _ es => areConstant es
  | .map _ es => arePairsConstant es
  | _ => false

def areConstant : List Expr → Bool
  | [] => true
  | e :: r => e.isConstant && areConstant r

def arePairsConstant : List (Expr × Expr) → Bool
  | [] => true
  | (k, e) :: r => k.isConstant && e.isConstant && arePairsConstant r

end

/-- Arguments that are constants are put in place without a look at where they stand. -/
def Arg.isConstantNamed : Arg → Bool
  | .named _ (.literal _ _) => true
  | _ => false

def Arg.isNamed : Arg → Bool
  | .named _ _ => true
  | .spreadNamed _ => true
  | _ => false

/-- Whether the named arguments among these are all constants. -/
def namedAreConstant (args : List Arg) : Bool :=
  args.all fun a => !a.isNamed || a.isConstantNamed

mutual

/-- The line at which a fault of an expression is reported: that of its last part. -/
def Expr.lastLine : Expr → Nat
  | .var l _ => l
  | .literal l _ => l
  | .list l es => if areConstant es then l else lastOf l es
  | .map l es => if arePairsConstant es then l else lastOfPairs l es
  | .unary l .negate _ => l
  | .unary _ .not e => e.lastLine
  | .binary _ _ _ b => b.lastLine
  | .compare _ e r => lastOfComparisons e.lastLine r
  | .choice _ _ y n => lastOfOptional y.lastLine n
  | .filter l _ e args =>
    lastOfNamed (namedAreConstant args) (lastOfPlain (lastOfOptional l e) args) args
  | .test _ _ e args => lastOfNamed (namedAreConstant args) (lastOfPlain e.lastLine args) args
  | .attr _ e _ => e.lastLine
  | .item _ _ k => k.lastLine
  | .slice _ e a b c => lastOfOptional (lastOfOptional (lastOfOptional e.lastLine a) b) c
  | .call l (.var _ _) args => lastOfNamed (namedAreConstant args) (lastOfPlain l args) args
  | .call _ (.attr _ e _) args => lastOfNamed (namedAreConstant args) (lastOfPlain e.lastLine args) args
  | .call _ f args => lastOfNamed (namedAreConstant args) (lastOfPlain f.lastLine args) args

/-- Arguments by name are evaluated after all others. -/
def lastOfPlain : Nat → List Arg → Nat
  | l, [] => l
  | _, .positional e :: r => lastOfPlain e.lastLine r
  | _, .spread e :: r => lastOfPlain e.lastLine r
  | l, .named _ _ :: r => lastOfPlain l r
  | l, .spreadNamed _ :: r => lastOfPlain l r

/-- Named arguments that are `skipped` leave the line as it is. -/
def lastOfNamed (skipped : Bool) : Nat → List Arg → Nat
  | l, [] => l
  | l, .named _ e :: r => lastOfNamed skipped (if skipped then l else e.lastLine) r
  | _, .spreadNamed e :: r => lastOfNamed skipped e.lastLine r
  | l, .positional _ :: r => lastOfNamed skipped l r
  | l, .spread _ :: r => lastOfNamed skipped l r

def lastOf : Nat → List Expr → Nat
  | l, [] => l
  | _, e :: r => lastOf e.lastLine r

def lastOfPairs : Nat → List (Expr × Expr) → Nat
  | l, [] => l
  | _, (_, e) :: r => lastOfPairs e.lastLine r

def lastOfComparisons : Nat → List (Comparison × Expr) → Nat
  | l, [] => l
  | _, (_, e) :: r => lastOfComparisons e.lastLine r

def lastOfOptional : Nat → Option Expr → Nat
  | l, none => l
  | _, some e => e.lastLine

end

end SecureLayout.Template
