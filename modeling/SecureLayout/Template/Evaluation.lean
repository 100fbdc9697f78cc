import SecureLayout.Component.Markup
import SecureLayout.Numeric.Power
import SecureLayout.Template.Depth
import SecureLayout.Template.Machine

/-!
Evaluation of templates. Calls of the evaluator nest within a room that grows with the depth of the template; scopes
run out long before, which is an error of the template.
-/

namespace SecureLayout.Template

open Eval

/-! ### Reading from values -/

namespace Machine

def loopAttr? (l : LoopState) (name : String) : Option Value :=
  match name with
  | "index0" => some (.int l.index0)
  | "index" => some (.int (l.index0 + 1 : Nat))
  | "length" => some (.int l.length)
  | "revindex" => some (.int (l.length - l.index0 : Nat))
  | "revindex0" => some (.int (l.length - l.index0 - 1 : Nat))
  | "first" => some (.bool (l.index0 == 0))
  | "last" => some (.bool (l.length == 0 || l.index0 + 1 == l.length))
  | "depth" => some (.int (l.depth0 + 1 : Nat))
  | "depth0" => some (.int l.depth0)
  | "previtem" => some (l.previous.getD (.undefined false))
  | "nextitem" => some (l.next.getD (.undefined false))
  | _ => none

def macroAttr? (c : Closure) (name : String) : Option Value :=
  match name with
  | "name" => some (.plainText c.decl.name)
  | "arguments" => some (.list (c.decl.params.map .plainText))
  | "caller" => some (.bool c.usesCaller)
  | _ => none

/-- The value under a name, in a map or a value by reference. -/
def attr? (m : Machine) (v : Value) (name : String) : Option Value :=
  match v with
  | .object _ i =>
    match m.heap[i]? with
    | some (.loop l) => loopAttr? l name
    | some (.space es) => Entries.get? name es
    | some (.macro_ c) => macroAttr? c name
    | _ => none
  | v => v.attr? name

/-- The value under a key. -/
def item? (m : Machine) (v key : Value) : Option Value :=
  match v, key with
  | .object _ _, .text s _ => m.attr? v s
  | v, key => v.item? key

/-- Items of a value; those of a namespace are its names. -/
def iterate (m : Machine) (v : Value) : Except Error (List Value) :=
  match v with
  | .object _ i =>
    match m.heap[i]? with
    | some (.space es) => .ok ((Entries.keys es).map .plainText)
    | _ => v.iterate
  | v => v.iterate

end Machine

/-! ### Functions of the environment -/

/-- A namespace with the entries of a map or the named arguments. -/
def namespaceOf (a : Args) : Except Error (Entries Value) :=
  let named (es : List (Value × Value)) : Entries Value :=
    Entries.ofList (es.filterMap fun
      | (.text k _, v) => some (k, v)
      | _ => none)
  match a.positional, a.named with
  | [], es => .ok es
  | [.map es], [] => .ok (named es)
  | [v], [] => .error (.invalid ("expected object or keyword arguments, got " ++ v.kind.describe))
  | _, _ => .error Filter.tooMany

/-- The markup of a component call: a refused name gives an error block, any other a placeholder. -/
def placeholder (w : World) (objects : Nat → List Char) (name : String) (props : Value) :
    Except Error Value :=
  if !w.policy.validateComponent name then .ok (.safeText (Component.disallowedBlock name))
  else if w.registry.any fun r => !r.contains name then
    .ok (.safeText (Component.unknownBlock name))
  else
    match props.toJson objects with
    | .ok j => .ok (.safeText (Component.livePlaceholder name j))
    | .error e => .error (.invalid ("component props not serializable: " ++ e))

def callBuiltin (w : World) (f : Builtin) (a : Args) : Eval Value :=
  match f with
  | .range => lift (rangeOf a)
  | .namespace_ => do
    let es ← lift (namespaceOf a)
    return .object .namespace_ (← alloc (.space es))
  | .component => do
    match a.positional with
    | [name, props] =>
      ask fun m => do
        let name ← Filter.textArg m.setting name
        placeholder w m.objectText (String.ofList name) props
    | _ => throw Filter.missing
  | .tick => do
    tick
    return .none

/-! ### Loops -/

/-- The value a loop is over at the moment and its neighbours, as its body sees them. -/
def setLoop (ref index0 : Nat) (previous next : Option Value) : Eval Unit :=
  updateCell ref (.mapLoop fun l => { l with index0, previous, next })

/-- Runs a body for every item, which is assigned before the body is entered. -/
def forItems (assign : Value → Eval Unit) (body : Eval Unit) (ref : Nat) :
    Nat → Option Value → List Value → Eval Unit
  | _, _, [] => return ()
  | i, previous, v :: r => do
    setLoop ref i previous r.head?
    assign v
    enterBody
    body
    forItems assign body ref (i + 1) (some v) r

/-- The room that the first statement of a loop body takes, which asks the budget. -/
def tickRoom : Nat := 5

/-- Loops inside the body of a loop that calls itself lie one deeper. -/
def nextDepth (m : Machine) : Nat :=
  match m.currentLoop? with
  | some l =>
    match l.again, m.heap[l.ref]? with
    | some _, some (.loop s) => s.depth0 + 1
    | _, _ => 0
  | none => 0

/-- Whether the arguments differ from those of the last call. -/
def loopChanged (ref : Nat) (vs : List Value) : Eval Value := do
  match (← get).heap[ref]? with
  | some (.loop l) =>
    if l.lastSeen.any fun seen => Value.equalItems seen vs then return .bool false
    else
      updateCell ref (.mapLoop fun l => { l with lastSeen := some vs })
      return .bool true
  | _ => return .bool false

/-- One of the arguments in turn. -/
def loopCycle (ref : Nat) (vs : List Value) : Eval Value :=
  ask fun m =>
    match m.heap[ref]? with
    | some (.loop l) => .ok ((vs[l.index0 % vs.length]?).getD (.undefined false))
    | _ => .ok (.undefined false)

/-! ### Macros -/

/-- A macro takes the names along that its body uses and does not assign. -/
def makeMacro (w : World) (decl : Macro) : Eval Value := do
  let free := decl.freeNames
  (free.filter (· != "caller")).forM (enclose w)
  let c ← context
  let captured := c.scopes.head?.bind (·.captured)
  return .object .macro_ (← alloc (.macro_
    { decl, captured, template := c.template, usesCaller := free.contains "caller" }))

/-- What a call by name calls. -/
def callee (w : World) (name : String) : Eval Value := do
  match (← get).lookup? w name with
  | some v => return v
  | none => throw { kind := .unknownFunction, detail := some (name ++ " is unknown") }

/-- A call block gives its body to what it calls. -/
def callerArg (w : World) : Option Macro → Eval (List (String × Value))
  | none => return []
  | some m => do return [("caller", ← makeMacro w m)]

/-- What one parameter is given, by position or by name. -/
def parameterValue (a : Args) (i : Nat) (name : String) : Except Error Value :=
  match a.positional[i]?, Entries.get? name a.named with
  | some _, some _ =>
    .error { kind := .tooManyArguments, detail := some ("duplicate argument `" ++ name ++ "`") }
  | some v, none => .ok v
  | none, some v => .ok v
  | none, none => .ok (.undefined false)

/-- Values of all parameters in their order. -/
def bindParameters (c : Closure) (a : Args) : Except Error (List Value) := do
  let params := c.decl.params
  if params.length < a.positional.length then throw Filter.tooMany
  let values ← params.zipIdx.mapM fun (name, i) => parameterValue a i name
  match (Entries.keys a.named).find? fun k => !params.contains k && !(c.usesCaller && k == "caller") with
  | some k =>
    throw { kind := .tooManyArguments, detail := some ("unknown keyword argument `" ++ k ++ "`") }
  | none => return values

/-- The scope that the body of a macro begins in. -/
def Closure.scope (c : Closure) (a : Args) : Scope :=
  { locals :=
      if c.usesCaller then [("caller", (Entries.get? "caller" a.named).getD (.undefined false))] else []
    base :=
      match c.captured with
      | some i => .captured i
      | none => .empty }

/-- Depth that a call of a macro costs, and that an inclusion costs. -/
def macroCost : Nat := 4

def includeCost : Nat := 10

/-! ### Templates by name -/

def missingTemplate (name : String) : Error :=
  { kind := .templateNotFound, detail := some ("template " ++ Text.quoted name ++ " does not exist") }

def stacksOf (name : String) (stmts : List Stmt) : Entries BlockStack :=
  Entries.ofList ((blocksOf stmts).map fun b => (b.1, ⟨[⟨name, b.2⟩], 0⟩))

/-- Blocks of a further template come after those that are there. -/
def appendBlocks (name : String) (stmts : List Stmt) (bs : Entries BlockStack) : Entries BlockStack :=
  (blocksOf stmts).foldl (fun bs b =>
    let s := (Entries.get? b.1 bs).getD ⟨[], 0⟩
    Entries.put b.1 { s with bodies := s.bodies ++ [⟨name, b.2⟩] } bs) bs

/-- Which body of a block runs. -/
def Context.setCurrent (c : Context) (name : String) (b : BlockStack) (n : Nat) : Context :=
  { c with blocks := Entries.put name { b with current := n } c.blocks }

/-- What the macros of the innermost scope share, from now on. -/
def withCaptured (captured : Option Nat) : List Scope → List Scope
  | [] => []
  | top :: r => { top with captured } :: r

def noName : Error := .invalid "template name was not a string"

/-- From now on the template is a variant of the named one. -/
def inherit_ (w : World) (v : Value) : Eval Unit := do
  let c ← context
  if c.parent.isSome then throw (.invalid "tried to extend a second time in a template")
  match v with
  | .text name _ =>
    if c.loaded.contains name then
      throw (.invalid ("cycle in template inheritance. " ++ Text.quoted name ++
        " was referenced more than once"))
    match Entries.get? name w.templates with
    | none => throw (missingTemplate name)
    | some stmts =>
      change fun c => { c with
        loaded := name :: c.loaded
        blocks := appendBlocks name stmts c.blocks
        parent := some ⟨name, stmts⟩
        discarding := true }
  | _ => throw noName

/-- Names that an inclusion tries one after the other. -/
def choices (v : Value) : Except Error (List Value) :=
  match v with
  | .list vs => .ok vs
  | .iterable vs => .ok vs
  | .map es => .ok (es.map (·.1))
  | v => .ok [v]

/-- The first of the names that a template has, or else the names tried. -/
def findTemplate (w : World) : List Value → Except Error (Sum Body (List String))
  | [] => .ok (.inr [])
  | .text name _ :: r =>
    match Entries.get? name w.templates with
    | some stmts => .ok (.inl ⟨name, stmts⟩)
    | none => do
      match ← findTemplate w r with
      | .inl b => return .inl b
      | .inr tried => return .inr (name :: tried)
  | _ :: _ => .error noName

def noneExists (tried : List String) : Error :=
  let detail := match tried with
    | [name] => "tried to include non-existing template " ++ Text.quoted name
    | names => "tried to include one of multiple templates, none of which existed [" ++
        ", ".intercalate (names.map Text.quoted) ++ "]"
  { kind := .templateNotFound, detail := some detail }

/-- Errors of a part that runs for another one are told as that part's. -/
def wrapping (e : Error) (x : Eval Unit) : Eval Unit :=
  fun m =>
    match x m with
    | (.error _, m) => (.error e, m)
    | r => r

/-- How output is escaped from now on. -/
def escapeMode (v : Value) : Except Error Bool :=
  match v with
  | .text "html" _ => .ok true
  | .text "none" _ => .ok false
  | .text _ _ => .error (.invalid "invalid value to autoescape tag")
  | v => .ok (v.equal (.bool true))

def unpack (n : Nat) (v : Value) (m : Machine) : Except Error (List Value) :=
  match m.iterate v with
  | .error _ => .error { kind := .cannotUnpack, detail := some "value is not iterable" }
  | .ok vs =>
    if vs.length = n then .ok vs
    else
      .error { kind := .cannotUnpack
               detail := some ("sequence of wrong length (expected " ++ toString n ++ ", got " ++
                 toString vs.length ++ ")") }

def setAttr (v : Value) (name : String) (x : Value) : Eval Unit :=
  match v with
  | .object .namespace_ i => updateCell i (.mapSpace (Entries.put name x))
  | v => throw (.invalid ("can only assign to namespaces, not " ++ v.kind.describe))

/-- Named arguments out of a map. -/
def namedFrom (v : Value) : Except Error (List (String × Value)) :=
  match v with
  | .map es => .ok (es.filterMap fun
    | (.text k _, v) => some (k, v)
    | _ => none)
  | v => .error (.invalid ("attempted to apply keyword arguments from non map (got " ++
      v.kind.describe ++ ")"))

def notCallable (v : Value) : Error :=
  match v with
  | .list _ => .invalid "object is not callable"
  | .iterable _ => .invalid "object is not callable"
  | .map _ => .invalid "object is not callable"
  | .object .loop _ =>
    { kind := .unknownFunction
      detail := some "loop cannot be called if reassigned to different variable" }
  | .object _ _ => .invalid "object is not callable"
  | v => .invalid ("value of type " ++ v.kind.describe ++ " is not callable")

def noMethod (v : Value) (name : String) : Error :=
  let what := match v with
    | .object .loop _ => "loop object"
    | v => v.kind.describe
  { kind := .unknownMethod, detail := some (what ++ " has no method named " ++ name) }

def noRoom : Error := tooDeep

/-! ### The evaluator -/

mutual

def evalExpr (w : World) : Nat → Expr → Eval Value
  | 0, _ => throw noRoom
  | room + 1, e =>
    atExpr e <|
      match e with
      | .var _ n => ask fun m => .ok ((m.lookup? w n).getD (.undefined false))
      | .literal _ l => return .ofLiteral l
      | .list _ es => do return .list (← es.mapM fun e => evalExpr w room e)
      | .map _ es => do
        return .mapOf (← es.mapM fun (k, v) => do
          let k ← evalExpr w room k
          return (k, ← evalExpr w room v))
      | .unary _ .not e => do
        let v ← evalExpr w room e
        return .bool !(← lift v.truth)
      | .unary _ .negate e => do
        let v ← evalExpr w room e
        lift v.negate
      | .binary _ .and a b => do
        let v ← evalExpr w room a
        if ← lift v.truth then evalExpr w room b else return v
      | .binary _ .or a b => do
        let v ← evalExpr w room a
        if ← lift v.truth then return v else evalExpr w room b
      | .binary _ op a b => do
        let x ← evalExpr w room a
        let y ← evalExpr w room b
        ask fun m => Value.binary m.objectText op x y
      | .compare _ first rest => do
        let v ← evalExpr w room first
        evalChain w room v rest
      | .choice _ test yes no => do
        let v ← evalExpr w room test
        if ← lift v.truth then evalExpr w room yes
        else
          match no with
          | some e => evalExpr w room e
          | none => return .undefined true
      | .filter _ _ _ _ => evalFilter w room e (.undefined false)
      | .test _ name e args => do
        let v ← evalExpr w room e
        let a ← evalArgs w room args none
        return .bool (← lift (Test.apply name v a))
      | .attr _ e name => do
        let v ← evalExpr w room e
        ask fun m => v.orUndefined (m.attr? v name)
      | .item _ e key => do
        let v ← evalExpr w room e
        let k ← evalExpr w room key
        ask fun m => v.orUndefined (m.item? v k)
      | .slice _ e start stop step => do
        let v ← evalExpr w room e
        let a ← evalBound w room start
        let b ← evalBound w room stop
        let c ← evalBound w room step
        lift (v.slice a b c)
      | .call _ f args => evalCall w room f args none

/-- Comparisons in a row, up to the first that does not hold. -/
def evalChain (w : World) : Nat → Value → List (Comparison × Expr) → Eval Value
  | 0, _, _ => throw noRoom
  | _, v, [] => return v
  | room + 1, v, (op, e) :: rest => do
    let x ← evalExpr w room e
    let holds ← ask fun m => Value.compare m.objectText op v x
    match rest with
    | [] => return .bool holds
    | _ => if holds then evalChain w room x rest else return .bool false

/-- A bound of a slice. -/
def evalBound (w : World) : Nat → Option Expr → Eval Value
  | 0, _ => throw noRoom
  | _, none => return .none
  | room + 1, some e => evalExpr w room e

/-- A chain of filters; the innermost works on `text` if it has no operand. -/
def evalFilter (w : World) : Nat → Expr → Value → Eval Value
  | 0, _, _ => throw noRoom
  | room + 1, e, text =>
    atExpr e <|
      match e with
      | .filter _ name operand args => do
        let v ← match operand with
          | none => pure text
          | some e => evalFilter w room e text
        let a ← evalArgs w room args none
        ask fun m => Filter.apply m.setting name v a
      | e => evalExpr w room e

/-- Arguments by position first, then those by name; a call block gives itself as `caller`. -/
def evalArgs (w : World) : Nat → List Arg → Option Macro → Eval Args
  | 0, _, _ => throw noRoom
  | room + 1, args, caller => do
    let positional ← args.mapM fun
      | .positional e => do return [← evalExpr w room e]
      | .spread e => do
        let v ← evalExpr w room e
        ask fun m => m.iterate v
      | _ => return []
    let named ← args.mapM fun
      | .named n e => do return [(n, ← evalExpr w room e)]
      | .spreadNamed e => do
        let v ← evalExpr w room e
        lift (namedFrom v)
      | _ => return []
    let given ← callerArg w caller
    return { positional := positional.flatten, named := Entries.ofList (named.flatten ++ given) }

/-- A call: some names are special, an attribute is called as a method. -/
def evalCall (w : World) : Nat → Expr → List Arg → Option Macro → Eval Value
  | 0, _, _, _ => throw noRoom
  | room + 1, f, args, caller =>
    match f with
    | .attr _ (.var _ "self") name => do captured (← capture (callBlock w room name))
    | .attr _ e name => do
      let v ← evalExpr w room e
      let a ← evalArgs w room args caller
      callMethod w room v name a
    | .var _ name => do
      let a ← evalArgs w room args caller
      match name, a with
      | "super", ⟨[], []⟩ => captured (← capture (callSuper w room))
      | "super", _ => throw (.invalid "super() takes no arguments")
      | "loop", ⟨[v], []⟩ => captured (← capture (loopAgain w room v))
      | "loop", _ => throw (.invalid "loop() takes one argument")
      | name, a => do callValue w room (← callee w name) a
    | f => do
      let v ← evalExpr w room f
      let a ← evalArgs w room args caller
      callValue w room v a

def callMethod (w : World) : Nat → Value → String → Args → Eval Value
  | 0, _, _, _ => throw noRoom
  | room + 1, v, name, a =>
    match v, name with
    | .object .loop ref, "changed" => loopChanged ref a.positional
    | .object .loop ref, "cycle" => loopCycle ref a.positional
    | .object .loop _, _ => throw (noMethod v name)
    | v, name => do
      match (← get).attr? v name with
      | some f => callValue w room f a
      | none => throw (noMethod v name)

def callValue (w : World) : Nat → Value → Args → Eval Value
  | 0, _, _ => throw noRoom
  | room + 1, v, a =>
    match v with
    | .function f => callBuiltin w f a
    | .object .macro_ ref => do
      match (← get).heap[ref]? with
      | some (.macro_ c) => callMacro w room c a
      | _ => throw (notCallable v)
    | v => throw (notCallable v)

/-- Runs a macro in scopes of its own and answers its output. -/
def callMacro (w : World) : Nat → Closure → Args → Eval Value
  | 0, _, _ => throw noRoom
  | room + 1, c, a => do
    let values ← lift (bindParameters c a)
    let outer := (← get).depth + macroCost
    if greatestDepth < outer + 1 then throw tooDeep
    let s ← isolated (fun x =>
      { scopes := [c.scope a], outerDepth := outer, template := c.template, escape := x.escape })
      (do
        (c.decl.withDefaults.zip values).reverse.forM fun ((name, default), v) => do
          match v.isUndefined, default with
          | true, some e => store name (← evalExpr w room e)
          | _, _ => store name v
        runAll w room c.decl.body)
    captured s

/-- Runs a block by name. -/
def callBlock (w : World) : Nat → String → Eval Unit
  | 0, _ => throw noRoom
  | room + 1, name => do
    match (Entries.get? name (← context).blocks).bind fun b => b.bodies[b.current]? with
    | none => throw { kind := .unknownBlock, detail := some ("block '" ++ name ++ "' not found") }
    | some body =>
      let outer := (← context).currentBlock
      change fun c => { c with currentBlock := some name }
      inScope {} (runBody w room body)
      change fun c => { c with currentBlock := outer }

/-- Runs what the current block replaces. -/
def callSuper (w : World) : Nat → Eval Unit
  | 0 => throw noRoom
  | room + 1 => do
    match (← context).currentBlock with
    | none => throw (.invalid "cannot super outside of block")
    | some name =>
      match Entries.get? name (← context).blocks with
      | none => throw (.invalid "no parent block exists")
      | some b =>
        match b.bodies[b.current + 1]? with
        | none => throw (.invalid "no parent block exists")
        | some body =>
          change fun c => c.setCurrent name b (b.current + 1)
          wrapping { kind := .evalBlock, detail := some "error in super block" }
            (inScope {} (runBody w room body))
          change fun c => c.setCurrent name b b.current

/-- Runs the body of the innermost loop over other items. -/
def loopAgain (w : World) : Nat → Value → Eval Unit
  | 0, _ => throw noRoom
  | room + 1, v => do
    match (← get).currentLoop? with
    | none => throw (.invalid "cannot recurse outside of loop")
    | some l =>
      match l.again with
      | none => throw (.invalid "cannot recurse outside of recursive loop")
      | some loop => runLoop w room loop v

/-- Runs the body of a loop for every item of a value. -/
def runLoop (w : World) : Nat → Loop → Value → Eval Unit
  | 0, _, _ => throw noRoom
  | room + 1, loop, v => atExpr loop.subject do
    if room < tickRoom then throw noRoom
    let items ← ask fun m => m.iterate v
    let depth0 := nextDepth (← get)
    let ref ← alloc (.loop { length := items.length, depth0 })
    inScope { loop := some ⟨ref, if loop.isRecursive then some loop else none⟩ }
      (forItems (assign w room loop.target) (runAll w room loop.body) ref 0 none items)

/-- The items of a loop that its condition keeps. -/
def keptItems (w : World) : Nat → Loop → Expr → Value → Eval Value
  | 0, _, _, _ => throw noRoom
  | room + 1, loop, test, v => atExpr loop.subject do
    let items ← ask fun m => m.iterate v
    inScope {} do
      return .list (← items.filterM fun v => do
        assign w room loop.target v
        let t ← evalExpr w room test
        atExpr test (lift t.truth))

def assign (w : World) : Nat → Target → Value → Eval Unit
  | 0, _, _ => throw noRoom
  | room + 1, target, v =>
    match target with
    | .name _ n => store n v
    | .attr _ e n => do
      let x ← evalExpr w room e
      atExpr e (setAttr x n v)
    | .list line ts => do
      let vs ← atLine line (ask (unpack ts.length v))
      (ts.zip vs).forM fun (t, v) => assign w room t v

/-- Runs an inclusion and puts everything but the scopes and the output back. -/
def includeTemplate (w : World) : Nat → Body → Eval Unit
  | 0, _ => throw noRoom
  | room + 1, body => do
    if greatestDepth < (← get).depth + includeCost then throw tooDeep
    let c ← context
    change fun c => { c with
      escape := true
      outerDepth := c.outerDepth + includeCost
      blocks := stacksOf body.template body.stmts
      scopes := withCaptured none c.scopes }
    wrapping { kind := .badInclude, detail := some ("error in \"" ++ body.template ++ "\"") }
      (runBody w room body)
    change fun d => { d with
      escape := c.escape
      outerDepth := c.outerDepth
      blocks := c.blocks
      loaded := c.loaded
      scopes := withCaptured (c.scopes.head?.bind (·.captured)) d.scopes }

/-- Includes the first template there is of those a value names. -/
def includeNamed (w : World) : Nat → Value → Bool → Eval Unit
  | 0, _, _ => throw noRoom
  | room + 1, v, ignoreMissing => do
    match ← lift (choices v >>= findTemplate w) with
    | .inl body => includeTemplate w room body
    | .inr tried => if ignoreMissing || tried.isEmpty then return () else throw (noneExists tried)

/-- Runs a body, and after it what it is a variant of. -/
def runBody (w : World) : Nat → Body → Eval Unit
  | 0, _ => throw noRoom
  | room + 1, body => do
    let c ← context
    change fun c => { c with template := body.template, parent := none }
    runAll w room body.stmts
    match (← context).parent with
    | none => change fun d => { d with template := c.template, parent := c.parent }
    | some parent =>
      change fun d => { d with discarding := c.discarding }
      runBody w room parent
      change fun d => { d with template := c.template, parent := c.parent }

def runAll (w : World) : Nat → List Stmt → Eval Unit
  | 0, _ => throw noRoom
  | room + 1, stmts => stmts.forM fun s => run w room s

/-- Whether blocks run where they stand: not in a variant, and not where output is dropped. -/
def run (w : World) : Nat → Stmt → Eval Unit
  | 0, _ => throw noRoom
  | room + 1, stmt =>
    match stmt with
    | .text s => write s
    | .emit e =>
      match e with
      | .call _ (.var _ "super") [] => atExpr e (callSuper w room)
      | .call _ (.var _ "loop") [.positional x] => do
        let v ← evalExpr w room x
        atExpr e (loopAgain w room v)
      | .call _ (.attr _ (.var _ "self") name) _ => atExpr e (placeBlock w room name)
      | e => do
        let v ← evalExpr w room e
        atExpr e (Eval.emit v)
    | .forLoop _ loop => do
      let v ← evalExpr w room loop.subject
      let v ← match loop.keep with
        | none => pure v
        | some test => keptItems w room loop test v
      runLoop w room loop v
      if loop.other.isEmpty then return ()
      else
        let items ← ask fun m => m.iterate v
        if items.isEmpty then runAll w room loop.other
    | .ifThen test yes no => do
      let v ← evalExpr w room test
      if ← atExpr test (lift v.truth) then runAll w room yes else runAll w room no
    | .withValues line bindings body => do
      atLine line (push {})
      bindings.forM fun (t, e) => do
        let v ← evalExpr w room e
        assign w room t v
      runAll w room body
      pop
    | .set _ target e => do
      let v ← evalExpr w room e
      assign w room target v
    | .setBlock _ target filter body => do
      let v ← captured (← capture (runAll w room body))
      match filter with
      | none => assign w room target v
      | some f => do
        let v ← evalFilter w room f v
        assign w room target v
    | .autoescape mode body => do
      let v ← evalExpr w room mode
      let escape ← atExpr mode (lift (escapeMode v))
      let before := (← context).escape
      change fun c => { c with escape }
      runAll w room body
      change fun c => { c with escape := before }
    | .filterBlock _ filter body => do
      let v ← captured (← capture (runAll w room body))
      let v ← evalFilter w room filter v
      atExpr filter (Eval.emit v)
    | .block line name _ => atLine line (placeBlock w room name)
    | .inherit _ e => do
      let v ← evalExpr w room e
      atExpr e (inherit_ w v)
    | .includeFile _ e ignoreMissing => do
      let v ← evalExpr w room e
      atExpr e (includeNamed w room v ignoreMissing)
    | .importAs line e target => do
      let _ ← capture do
        atLine line (push {})
        let v ← evalExpr w room e
        atLine line (includeNamed w room v false)
      let names := ((← context).scopes.head?.map (·.locals)).getD []
      pop
      assign w room target (.ofEntries names)
    | .importNames line e names => do
      let _ ← capture do
        atLine line (push {})
        let v ← evalExpr w room e
        atLine line (includeNamed w room v false)
      let m ← get
      let values := names.map fun (n, _) => (m.lookup? w n).getD (.undefined false)
      pop
      (names.zip values).reverse.forM fun ((n, as), v) => store (as.getD n) v
    | .define _ m => do store m.name (← makeMacro w m)
    | .callBlock _ call caller =>
      match call with
      | .call _ f args => do
        let v ← atExpr call (evalCall w room f args (some caller))
        atExpr call (Eval.emit v)
      | _ => return ()
    | .run _ call => do
      let _ ← evalExpr w room call

/-- Runs a block where it stands: not in a variant, and not where output is dropped. -/
def placeBlock (w : World) : Nat → String → Eval Unit
  | 0, _ => throw noRoom
  | room + 1, name => do
    let c ← context
    if c.parent.isNone && !c.discarding then callBlock w room name else return ()

end

/-- Calls of the evaluator nest at most this deep, not counting what the template itself nests. -/
def evaluatorRoom : Nat := Numeric.twoTo 32

/-- The room that the calls of the evaluator have in a template. -/
def roomFor (stmts : List Stmt) : Nat :=
  evaluatorRoom + stmtsDepth stmts

/-- Renders a template and answers its output. -/
def renderBody (w : World) (name : String) (stmts : List Stmt) (budget : Budget) :
    Except Error String × Machine :=
  let m : Machine :=
    { context :=
        { scopes := [{ base := .data }], template := name, blocks := stacksOf name stmts, loaded := [name] }
      budget }
  let (r, m) := runBody w (roomFor stmts) ⟨name, stmts⟩ m
  (r.map fun _ => m.context.out, m)

end SecureLayout.Template
