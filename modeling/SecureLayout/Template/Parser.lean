import SecureLayout.Template.Lexer
import SecureLayout.Template.Tree

/-!
From tokens to statements. A fault is reported at the line of the token that was read last; how deep
expressions and statements may stand in each other is bounded.
-/

namespace SecureLayout.Template

structure ParserState where
  rest : List Spanned
  /-- What goes wrong after the last token. -/
  fault : Option Error
  /-- Line of the token read last. -/
  lastLine : Nat := 0
  blocks : List String := []
  inMacro : Bool := false

abbrev Parser (α : Type) := StateT ParserState (Except Error) α

namespace Parser

variable {α : Type}

def fail (detail : String) : Parser α :=
  fun s => .error { kind := .syntaxError, detail := some detail, site := some ⟨"", s.lastLine⟩ }

def tooDeep : Parser α :=
  fail "template exceeds maximum recursion limits"

/-- Statements and expressions may stand in each other this deep. -/
def greatestDepth : Nat := 150

def peek : Parser (Option Token) :=
  fun s =>
    match s.rest with
    | t :: _ => .ok (some t.token, s)
    | [] =>
      match s.fault with
      | some e => .error (e.atSite ⟨"", s.lastLine⟩)
      | none => .ok (none, s)

def next : Parser (Option Token) := do
  let t ← peek
  modify fun s =>
    match s.rest with
    | t :: r => { s with rest := r, lastLine := t.line }
    | [] => s
  return t

/-- The line of the next token. -/
def nextLine : Parser Nat :=
  fun s => .ok ((s.rest.head?.map (·.line)).getD s.lastLine, s)

def tokensLeft : Parser Nat :=
  fun s => .ok (s.rest.length, s)

def isNext (t : Token) : Parser Bool := do
  return (← peek) == some t

/-- Reads the token if it comes next. -/
def skip (t : Token) : Parser Bool := do
  if ← isNext t then
    let _ ← next
    return true
  else return false

def skipSymbol (s : Symbol) : Parser Bool := skip (.symbol s)

def skipName (n : String) : Parser Bool := skip (.name n)

def unexpected (t : Option Token) (expected : String) : Parser α :=
  match t with
  | some t => fail ("unexpected " ++ t.describe ++ ", expected " ++ expected)
  | none => fail ("unexpected end of input, expected " ++ expected)

def expect (t : Token) (expected : String) : Parser Unit := do
  let found ← next
  if found == some t then pure () else unexpected found expected

def expectSymbol (s : Symbol) : Parser Unit :=
  expect (.symbol s) ("`" ++ s.text ++ "`")

def identifier : Parser String := do
  match ← next with
  | some (.name n) => return n
  | t => unexpected t "identifier"

def endOfBlock : Parser Unit :=
  expect .blockEnd "end of block"

/-! ### Expressions -/

/-- A list of things between brackets; a comma may stand after the last. -/
def listUntil (close : Symbol) (item : Parser α) : Parser (List α) := do
  let fuel ← tokensLeft
  go (fuel + 1) true
where
  go : Nat → Bool → Parser (List α)
    | 0, _ => fail "unexpected end of input"
    | fuel + 1, first => do
      if ← skipSymbol close then return []
      if !first then
        expectSymbol .comma
        if ← skipSymbol close then return []
      let x ← item
      return x :: (← go fuel false)

/-- One argument of a call. -/
def argument (expr plain : Parser Expr) (named : Bool) : Parser Arg := do
  if ← skipSymbol .power then return .spreadNamed (← expr)
  if ← skipSymbol .times then return .spread (← expr)
  let e ← expr
  match e with
  | .var _ n =>
    if ← skipSymbol .assign then return .named n (← plain)
    if named then fail "non-keyword arg after keyword arg" else return .positional e
  | e => if named then fail "non-keyword arg after keyword arg" else return .positional e

/-- Arguments in parentheses. -/
def arguments (expr plain : Parser Expr) : Parser (List Arg) := do
  expectSymbol .parenOpen
  let fuel ← tokensLeft
  go (fuel + 1) true false
where
  go : Nat → Bool → Bool → Parser (List Arg)
    | 0, _, _ => fail "unexpected end of input"
    | fuel + 1, first, named => do
      if ← skipSymbol .parenClose then return []
      if !first then
        expectSymbol .comma
        if ← skipSymbol .parenClose then return []
      let a ← argument expr plain named
      let named := match a with
        | .named _ _ => true
        | .spreadNamed _ => true
        | _ => named
      return a :: (← go fuel false named)

/-- The rest after an opening parenthesis: one expression, or a list if a comma follows. -/
def parenthesized (expr : Parser Expr) (line : Nat) : Parser Expr := do
  if ← skipSymbol .parenClose then return .list line []
  let e ← expr
  if ← isNext (.symbol .comma) then
    let _ ← next
    return .list line (e :: (← listUntil .parenClose expr))
  else
    expectSymbol .parenClose
    return e

def mapEntry (expr : Parser Expr) : Parser (Expr × Expr) := do
  let k ← expr
  expectSymbol .colon
  return (k, ← expr)

def primary (expr : Parser Expr) : Parser Expr := do
  let line ← nextLine
  match ← next with
  | none => unexpected none "expression"
  | some (.name n) =>
    match n with
    | "true" => return .literal line (.bool true)
    | "True" => return .literal line (.bool true)
    | "false" => return .literal line (.bool false)
    | "False" => return .literal line (.bool false)
    | "none" => return .literal line .none
    | "None" => return .literal line .none
    | n => return .var line n
  | some (.string s) => return .literal line (.text s)
  | some (.int n) => return .literal line (.int n)
  | some (.float x) => return .literal line (.float x)
  | some (.symbol .parenOpen) => parenthesized expr line
  | some (.symbol .bracketOpen) => return .list line (← listUntil .bracketClose expr)
  | some (.symbol .braceOpen) => return .map line (← listUntil .braceClose (mapEntry expr))
  | some t => fail ("unexpected " ++ t.describe)

/-- Part of a slice unless a delimiter comes next. -/
def slicePart (expr : Parser Expr) (colonEnds : Bool) : Parser (Option Expr) := do
  match ← peek with
  | some (.symbol .bracketClose) => return none
  | some (.symbol .colon) => if colonEnds then return none else return some (← expr)
  | _ => return some (← expr)

/-- The rest after an opening bracket: a key or a slice. -/
def subscript (expr : Parser Expr) (line : Nat) (e : Expr) : Parser Expr := do
  let start ← if ← isNext (.symbol .colon) then pure none else pure (some (← expr))
  if ← skipSymbol .colon then
    let stop ← slicePart expr true
    let step ← if ← skipSymbol .colon then slicePart expr false else pure none
    expectSymbol .bracketClose
    return .slice line e start stop step
  else
    expectSymbol .bracketClose
    match start with
    | some key => return .item line e key
    | none => fail "empty subscript"

/-- Attributes, keys and calls after an expression. -/
def suffixes (expr plain : Parser Expr) (line : Nat) : Nat → Expr → Parser Expr
  | 0, e => pure e
  | fuel + 1, e => do
    match ← peek with
    | some (.symbol .dot) => do
      let _ ← next
      let keyLine ← nextLine
      match ← next with
      | some (.name n) => suffixes expr plain line fuel (.attr line e n)
      | some (.int n) => suffixes expr plain line fuel (.item line e (.literal keyLine (.int n)))
      | t => unexpected t "identifier or integer"
    | some (.symbol .bracketOpen) => do
      let _ ← next
      let e ← subscript expr line e
      suffixes expr plain line fuel e
    | some (.symbol .parenOpen) => do
      let args ← arguments expr plain
      suffixes expr plain line fuel (.call line e args)
    | _ => pure e

/-- Minus signs in front of a primary. -/
def negated (prim : Parser Expr) : Nat → Parser Expr
  | 0 => prim
  | fuel + 1 => do
    let line ← nextLine
    if ← skipSymbol .minus then return .unary line .negate (← negated prim fuel)
    else prim

/-- A primary with signs in front and attributes, keys and calls after it. -/
def operand (expr plain prim : Parser Expr) : Parser Expr := do
  let fuel ← tokensLeft
  let line ← nextLine
  let e ← negated prim fuel
  let fuel ← tokensLeft
  suffixes expr plain line fuel e

def argumentsIfAny (expr plain : Parser Expr) : Parser (List Arg) := do
  if ← isNext (.symbol .parenOpen) then arguments expr plain else return []

/-- Whether a token may begin the single argument of a test that has no parentheses. -/
def beginsArgument : Option Token → Bool
  | some (.name n) => n != "and" && n != "or" && n != "else" && n != "is"
  | some (.string _) => true
  | some (.int _) => true
  | some (.float _) => true
  | some (.symbol s) => s == .plus || s == .minus || s == .bracketOpen || s == .braceOpen
  | _ => false

def testArguments (expr plain prim : Parser Expr) : Parser (List Arg) := do
  match ← peek with
  | some (.symbol .parenOpen) => arguments expr plain
  | t => if beginsArgument t then return [.positional (← operand expr plain prim)] else return []

/-- Filters and tests after an operand. -/
def filtered (expr plain prim : Parser Expr) : Nat → Expr → Parser Expr
  | 0, e => pure e
  | fuel + 1, e => do
    match ← peek with
    | some (.symbol .pipe) => do
      let _ ← next
      let line ← nextLine
      let name ← identifier
      let args ← argumentsIfAny expr plain
      filtered expr plain prim fuel (.filter line name (some e) args)
    | some (.name "is") => do
      let _ ← next
      let inverted ← skipName "not"
      let line ← nextLine
      let name ← identifier
      let args ← testArguments expr plain prim
      let t : Expr := .test line name e args
      filtered expr plain prim fuel (if inverted then .unary line .not t else t)
    | _ => pure e

def withFilters (expr plain prim : Parser Expr) : Parser Expr := do
  let e ← operand expr plain prim
  let fuel ← tokensLeft
  filtered expr plain prim fuel e

/-- Operators of one rank, from left to right. -/
def leftToRight (op? : Token → Option BinaryOp) (lower : Parser Expr) : Parser Expr := do
  let line ← nextLine
  let e ← lower
  let fuel ← tokensLeft
  go line fuel e
where
  go (line : Nat) : Nat → Expr → Parser Expr
    | 0, e => pure e
    | fuel + 1, e => do
      match (← peek).bind op? with
      | none => pure e
      | some op => do
        let _ ← next
        let right ← lower
        go line fuel (.binary line op e right)

def powerOp? : Token → Option BinaryOp
  | .symbol .power => some .pow
  | _ => none

def productOp? : Token → Option BinaryOp
  | .symbol .times => some .mul
  | .symbol .slash => some .div
  | .symbol .floor => some .floorDiv
  | .symbol .percent => some .rem
  | _ => none

def concatOp? : Token → Option BinaryOp
  | .symbol .tilde => some .concat
  | _ => none

def sumOp? : Token → Option BinaryOp
  | .symbol .plus => some .add
  | .symbol .minus => some .sub
  | _ => none

def andOp? : Token → Option BinaryOp
  | .name "and" => some .and
  | _ => none

def orOp? : Token → Option BinaryOp
  | .name "or" => some .or
  | _ => none

/-- A comparison operator, read if it comes next. -/
def comparison? : Parser (Option Comparison) := do
  match ← peek with
  | some (.symbol .eq) => do let _ ← next; return some .eq
  | some (.symbol .ne) => do let _ ← next; return some .ne
  | some (.symbol .lt) => do let _ ← next; return some .lt
  | some (.symbol .le) => do let _ ← next; return some .le
  | some (.symbol .gt) => do let _ ← next; return some .gt
  | some (.symbol .ge) => do let _ ← next; return some .ge
  | some (.name "in") => do let _ ← next; return some .isIn
  | some (.name "not") => do
    let _ ← next
    expect (.name "in") "in"
    return some .notIn
  | _ => return none

def comparisons (lower : Parser Expr) : Nat → Parser (List (Comparison × Expr))
  | 0 => return []
  | fuel + 1 => do
    match ← comparison? with
    | none => return []
    | some op => do
      let e ← lower
      return (op, e) :: (← comparisons lower fuel)

def compared (lower : Parser Expr) : Parser Expr := do
  let line ← nextLine
  let e ← lower
  let fuel ← tokensLeft
  match ← comparisons lower fuel with
  | [] => return e
  | rest => return .compare line e rest

def inverted (lower : Parser Expr) : Nat → Parser Expr
  | 0 => lower
  | fuel + 1 => do
    let line ← nextLine
    if ← skipName "not" then return .unary line .not (← inverted lower fuel) else lower

/-- Every operator but the choice. -/
def logical (atom : Parser Expr) : Parser Expr :=
  let sums := leftToRight sumOp? (leftToRight concatOp? (leftToRight productOp? (leftToRight powerOp? atom)))
  let nots : Parser Expr := do inverted (compared sums) (← tokensLeft)
  leftToRight orOp? (leftToRight andOp? nots)

/-- Choices by `if` behind an expression, with or without an alternative, which `other` reads. -/
def choicesAfter (plain other : Parser Expr) (line : Nat) : Nat → Expr → Parser Expr
  | 0, e => pure e
  | n + 1, e => do
    if ← skipName "if" then
      let test ← plain
      let no ← if ← skipName "else" then pure (some (← other)) else pure none
      choicesAfter plain other line n (.choice line test e no)
    else pure e

/-- An expression with the choices behind it. -/
def choices (plain : Parser Expr) : Nat → Parser Expr
  | 0 => plain
  | fuel + 1 => do
    let line ← nextLine
    let e ← plain
    choicesAfter plain (choices plain fuel) line fuel e

/-- Expression without a choice on the outside, and with one; `room` bounds the depth. -/
def expression (choice : Bool) : Nat → Parser Expr
  | 0 => tooDeep
  | 1 => tooDeep
  | room + 2 =>
    let inner := expression true (room + 1)
    let innerPlain := expression false (room + 1)
    let prim := primary (expression true room)
    let plain := logical (withFilters inner innerPlain prim)
    if choice then do choices plain ((← tokensLeft) + 1) else plain

/-! ### Targets -/

def reservedNames : List String :=
  ["true", "True", "false", "False", "none", "None", "loop", "self"]

def assignName : Parser String := do
  let n ← identifier
  if reservedNames.contains n then fail ("cannot assign to reserved variable name " ++ n)
  else return n

/-- Attributes after the name of a target. -/
def dotted (line : Nat) : Nat → Target → Expr → Parser Target
  | 0, t, _ => pure t
  | fuel + 1, t, e => do
    if ← skipSymbol .dot then
      let n ← identifier
      dotted line fuel (.attr line e n) (.attr line e n)
    else pure t

def assignTarget : Parser Target := do
  let line ← nextLine
  let n ← assignName
  dotted line (← tokensLeft) (.name line n) (.var line n)

/-- Whether a list of targets ends before this token. -/
def endsTargets : Option Token → Bool
  | some (.symbol .parenClose) => true
  | some .exprEnd => true
  | some .blockEnd => true
  | some (.name "in") => true
  | _ => false

/-- One target or several with commas; targets in parentheses nest at most `room` deep. -/
def targets : Nat → Parser Target
  | 0 => tooDeep
  | room + 1 => do
    let line ← nextLine
    let fuel ← tokensLeft
    match ← go (targets room) (fuel + 1) true with
    | ([t], false) => return t
    | (ts, _) => return .list line ts
where
  go (inner : Parser Target) : Nat → Bool → Parser (List Target × Bool)
    | 0, _ => return ([], false)
    | fuel + 1, first => do
      if !first then expectSymbol .comma
      if endsTargets (← peek) then return ([], !first)
      let t ← if ← skipSymbol .parenOpen then do
          let t ← inner
          expectSymbol .parenClose
          pure t
        else assignTarget
      if ← isNext (.symbol .comma) then
        let (ts, _) ← go inner fuel false
        return (t :: ts, true)
      else return ([t], false)

/-! ### Statements -/

abbrev StmtList := List Stmt

/-- Statements up to a tag whose first word ends them; that word is left to read. -/
def bodyUntil (stmt : Parser Stmt) (expr : Parser Expr) (ends : List String) : Nat → Parser StmtList
  | 0 => return []
  | fuel + 1 => do
    match ← next with
    | none => return []
    | some (.data s) => return .text s :: (← bodyUntil stmt expr ends fuel)
    | some .exprStart => do
      let e ← expr
      expect .exprEnd "end of variable block"
      return .emit e :: (← bodyUntil stmt expr ends fuel)
    | some .blockStart => do
      match ← peek with
      | none => fail "unexpected end of input, expected keyword"
      | some t =>
        let stops := match t with
          | .name n => ends.contains n
          | _ => false
        if stops then return []
        let s ← stmt
        endOfBlock
        return s :: (← bodyUntil stmt expr ends fuel)
    | some _ => fail "unexpected token"

/-- What the parsers of statements are built from. -/
structure Parts where
  expr : Parser Expr
  plain : Parser Expr
  stmt : Parser Stmt
  targets : Parser Target

namespace Parts

def body (p : Parts) (ends : List String) : Parser StmtList := do
  bodyUntil p.stmt p.expr ends ((← tokensLeft) + 1)

/-- A body and the word that ends it. -/
def bodyAndEnd (p : Parts) (end_ : String) : Parser StmtList := do
  endOfBlock
  let b ← p.body [end_]
  let _ ← next
  return b

def forLoop (p : Parts) (line : Nat) : Parser Stmt := do
  let target ← p.targets
  expect (.name "in") "in"
  let subject ← p.plain
  let keep ← if ← skipName "if" then pure (some (← p.expr)) else pure none
  let recursive ← skipName "recursive"
  endOfBlock
  let b ← p.body ["endfor", "else"]
  let other ← if ← skipName "else" then do
      endOfBlock
      p.body ["endfor"]
    else pure []
  let _ ← next
  return .forLoop line (.mk target subject keep recursive b other)

def ifThen (p : Parts) : Nat → Parser Stmt
  | 0 => fail "unexpected end of input"
  | fuel + 1 => do
    let test ← p.expr
    endOfBlock
    let yes ← p.body ["endif", "else", "elif"]
    match ← next with
    | some (.name "else") => return .ifThen test yes (← p.bodyAndEnd "endif")
    | some (.name "elif") => return .ifThen test yes [← p.ifThen fuel]
    | _ => return .ifThen test yes []

def bindings (p : Parts) : Nat → Bool → Parser (List (Target × Expr))
  | 0, _ => return []
  | fuel + 1, first => do
    if ← isNext .blockEnd then return []
    if !first then expect (.symbol .comma) "comma"
    let target ← if ← skipSymbol .parenOpen then do
        let t ← p.targets
        expectSymbol .parenClose
        pure t
      else do
        let line ← nextLine
        pure (.name line (← assignName))
    expect (.symbol .assign) "assignment operator"
    let e ← p.expr
    return (target, e) :: (← p.bindings fuel false)

def withValues (p : Parts) (line : Nat) : Parser Stmt := do
  let bs ← p.bindings ((← tokensLeft) + 1) true
  return .withValues line bs (← p.bodyAndEnd "endwith")

/-- Filters joined by bars, applied to the text of a block. -/
def filterChain (p : Parts) : Parser Expr := do
  match ← go p ((← tokensLeft) + 1) none with
  | some e => return e
  | none => fail "expected a filter"
where
  go (p : Parts) : Nat → Option Expr → Parser (Option Expr)
    | 0, e => return e
    | fuel + 1, e => do
      if ← isNext .blockEnd then return e
      if e.isSome then expectSymbol .pipe
      let line ← nextLine
      let name ← identifier
      let args ← argumentsIfAny p.expr p.plain
      go p fuel (some (.filter line name e args))

def set (p : Parts) (line : Nat) : Parser Stmt := do
  let inParens ← skipSymbol .parenOpen
  let target ← p.targets
  if inParens then expectSymbol .parenClose
  let next? ← peek
  if !inParens && (next? == some .blockEnd || next? == some (.symbol .pipe)) then
    let filter ← if ← skipSymbol .pipe then pure (some (← p.filterChain)) else pure none
    return .setBlock line target filter (← p.bodyAndEnd "endset")
  else
    expect (.symbol .assign) "assignment operator"
    return .set line target (← p.expr)

def block (p : Parts) (line : Nat) : Parser Stmt := do
  if (← get).inMacro then fail "block tags in macros are not allowed"
  let name ← identifier
  if (← get).blocks.contains name then fail ("block '" ++ name ++ "' defined twice")
  modify fun s => { s with blocks := name :: s.blocks }
  let b ← p.bodyAndEnd "endblock"
  match ← peek with
  | some (.name trailing) =>
    if trailing == name then
      let _ ← next
    else fail ("mismatching name on block. Got `" ++ trailing ++ "`, expected `" ++ name ++ "`")
  | _ => pure ()
  return .block line name b

/-- Words on the context, which change nothing. -/
def contextWords : Parser Unit := do
  match ← peek with
  | some (.name "with") => do let _ ← next; expect (.name "context") "missing keyword"
  | some (.name "without") => do let _ ← next; expect (.name "context") "missing keyword"
  | _ => pure ()

def includeFile (p : Parts) (line : Nat) : Parser Stmt := do
  let name ← p.expr
  contextWords
  if ← skipName "ignore" then
    expect (.name "missing") "missing keyword"
    contextWords
    return .includeFile line name true
  else return .includeFile line name false

def importAs (p : Parts) (line : Nat) : Parser Stmt := do
  let name ← p.expr
  expect (.name "as") "as"
  let targetLine ← nextLine
  let n ← assignName
  contextWords
  return .importAs line name (.name targetLine n)

def importedNames : Nat → Bool → Parser (List (String × Option String))
  | 0, _ => return []
  | fuel + 1, first => do
    contextWords
    if ← isNext .blockEnd then return []
    if !first then
      expectSymbol .comma
      contextWords
    if ← isNext .blockEnd then return []
    let name ← assignName
    let renamed ← if ← skipName "as" then pure (some (← assignName)) else pure none
    return (name, renamed) :: (← importedNames fuel false)

def importNames (p : Parts) (line : Nat) : Parser Stmt := do
  let name ← p.expr
  expect (.name "import") "import"
  return .importNames line name (← importedNames ((← tokensLeft) + 1) true)

/-- Parameters after an opening parenthesis, and defaults of the last of them. -/
def parameters (p : Parts) : Nat → Bool → Bool → Parser (List String × List Expr)
  | 0, _, _ => return ([], [])
  | fuel + 1, first, defaulted => do
    if ← skipSymbol .parenClose then return ([], [])
    if !first then
      expectSymbol .comma
      if ← skipSymbol .parenClose then return ([], [])
    let name ← assignName
    if ← skipSymbol .assign then
      let e ← p.expr
      let (names, defaults) ← p.parameters fuel false true
      return (name :: names, e :: defaults)
    else
      if defaulted then expectSymbol .assign
      let (names, defaults) ← p.parameters fuel false defaulted
      return (name :: names, defaults)

/-- The body of a macro or of a call block, up to its end. -/
def macroBody (p : Parts) (line : Nat) (name : String) (params : List String) (defaults : List Expr)
    (end_ : String) : Parser Macro := do
  endOfBlock
  let inMacro := (← get).inMacro
  modify fun s => { s with inMacro := true }
  let b ← p.body [end_]
  modify fun s => { s with inMacro := inMacro }
  let _ ← next
  return .mk line name params defaults b

def define (p : Parts) (line : Nat) : Parser Stmt := do
  let name ← identifier
  expectSymbol .parenOpen
  let (params, defaults) ← p.parameters ((← tokensLeft) + 1) true false
  return .define line (← p.macroBody line name params defaults "endmacro")

/-- An expression that must be a call. -/
def call (p : Parts) : Parser Expr := do
  let e ← p.expr
  match e with
  | .call _ _ _ => return e
  | e => fail ("expected call expression in call block, got " ++ e.describe)

def callBlock (p : Parts) (line : Nat) : Parser Stmt := do
  let (params, defaults) ← if ← skipSymbol .parenOpen then
      p.parameters ((← tokensLeft) + 1) true false
    else pure ([], [])
  let c ← p.call
  return .callBlock line c (← p.macroBody line "caller" params defaults "endcall")

/-- A statement after its first word. -/
def statement (p : Parts) : Parser Stmt := do
  let line ← nextLine
  match ← next with
  | none => unexpected none "block keyword"
  | some (.name n) =>
    match n with
    | "for" => p.forLoop line
    | "if" => do p.ifThen ((← tokensLeft) + 1)
    | "with" => p.withValues line
    | "set" => p.set line
    | "autoescape" => do
      let mode ← p.expr
      return .autoescape mode (← p.bodyAndEnd "endautoescape")
    | "filter" => do
      let f ← p.filterChain
      return .filterBlock line f (← p.bodyAndEnd "endfilter")
    | "block" => p.block line
    | "extends" => return .inherit line (← p.expr)
    | "include" => p.includeFile line
    | "import" => p.importAs line
    | "from" => p.importNames line
    | "macro" => p.define line
    | "call" => p.callBlock line
    | "do" => return .run line (← p.call)
    | n => fail ("unknown statement " ++ n)
  | some t => fail ("unknown " ++ t.describe ++ ", expected statement")

end Parts

/-- A statement; `room` bounds how deep statements and expressions stand in each other. -/
def statement : Nat → Parser Stmt
  | 0 => tooDeep
  | room + 1 =>
    Parts.statement
      { expr := expression true room
        plain := expression false (room + 1)
        stmt := statement room
        targets := targets room }

/-- A whole template. -/
def template : Parser (List Stmt) := do
  let fuel ← tokensLeft
  bodyUntil (statement greatestDepth) (expression true greatestDepth) [] (fuel + 1)

end Parser

/-- The statements of a source; a fault names the template. -/
def parse (space : BlockSpace) (name : String) (source : List Char) : Except Error (List Stmt) :=
  let tokens := tokenize space source
  match Parser.template { rest := tokens.tokens, fault := tokens.fault } with
  | .ok (body, _) => .ok body
  | .error e => .error { e with site := e.site.map fun s => { s with template := name } }

end SecureLayout.Template
