import SecureLayout.Proofs.Template.Scoping

/-!
What a render does to its budget, whatever the template. Main statement: no statement changes the limit, and the flag
always says whether the count went over it, `tells_renderBody`.
-/

namespace SecureLayout.Template

open Eval

/-- The flag says whether more loop bodies were asked for than the limit grants. -/
structure Budget.Tells (limit : Nat) (b : Budget) : Prop where
  max : b.max = limit
  tripped : b.tripped = decide (limit < b.count)

namespace Budget.Tells

variable {limit : Nat} {b : Budget}

theorem reset (h : b.max = limit) : b.reset.Tells limit :=
  ⟨h, by simp [Budget.reset]⟩

theorem tick (h : b.Tells limit) : b.tick.2.Tells limit := by
  obtain ⟨hmax, htripped⟩ := h
  have hkept : b.tick.2.max = b.max := by
    unfold Budget.tick
    split <;> rfl
  refine ⟨hkept.trans hmax, ?_⟩
  rw [tripped_tick, count_tick, htripped, hmax, Bool.eq_iff_iff]
  simp only [Bool.or_eq_true, decide_eq_true_eq]
  omega

end Budget.Tells

/-- Whatever it answers, the computation leaves a budget behind whose flag tells. -/
structure Spends {α : Type} (limit : Nat) (x : Eval α) : Prop where
  run : ∀ m : Machine, m.budget.Tells limit → (x m).2.budget.Tells limit

namespace Spends

variable {α β : Type} {limit : Nat} {x : Eval α} {f : α → Eval β}

/-! ### Primitives -/

/-- Most steps leave the counters alone. -/
theorem of_budget (h : ∀ m, (x m).2.budget = m.budget) : Spends limit x :=
  ⟨fun m hm => (h m).symm ▸ hm⟩

theorem pure {a : α} : Spends limit (Pure.pure a : Eval α) :=
  of_budget fun _ => rfl

theorem throw {e : Error} : Spends limit (MonadExcept.throw e : Eval α) :=
  of_budget fun _ => rfl

theorem bind (h : Spends limit x) (hf : ∀ a, Spends limit (f a)) : Spends limit (x >>= f) := by
  constructor
  intro m hm
  have hx := h.run m hm
  change (ExceptT.bindCont f (x m).1 (x m).2).2.budget.Tells limit
  generalize x m = r at hx ⊢
  obtain ⟨r, m'⟩ := r
  cases r with
  | ok a => exact (hf a).run m' hx
  | error e => exact hx

theorem after {y : Eval β} (h : Spends limit x) (hy : Spends limit y) : Spends limit (x >>= fun _ => y) :=
  h.bind fun _ => hy

theorem lift {r : Except Error α} : Spends limit (Eval.lift r) :=
  of_budget fun _ => rfl

theorem ask {g : Machine → Except Error α} : Spends limit (Eval.ask g) :=
  of_budget fun _ => rfl

theorem get {g : Machine → Eval α} (h : ∀ m, Spends limit (g m)) : Spends limit (MonadState.get >>= g) :=
  ⟨fun m hm => (h m).run m hm⟩

theorem context : Spends limit Eval.context :=
  of_budget fun _ => rfl

theorem change {g : Context → Context} : Spends limit (Eval.change g) :=
  of_budget fun _ => rfl

theorem updateCell {i : Nat} {g : Cell → Cell} : Spends limit (Eval.updateCell i g) :=
  of_budget fun _ => rfl

theorem alloc {c : Cell} : Spends limit (Eval.alloc c) :=
  of_budget fun _ => rfl

theorem store {name : String} {v : Value} : Spends limit (Eval.store name v) :=
  of_budget fun _ => congrArg Prod.fst Machine.counters_store

theorem enclose {w : World} {name : String} : Spends limit (Eval.enclose w name) :=
  of_budget fun _ => congrArg Prod.fst Machine.counters_enclose

theorem enterBody : Spends limit Eval.enterBody :=
  of_budget fun _ => rfl

theorem write {s : String} : Spends limit (Eval.write s) := by
  apply of_budget
  intro m
  unfold Eval.write
  split <;> rfl

/-- The only step that counts. -/
theorem tick : Spends limit Eval.tick :=
  ⟨fun _ hm => hm.tick⟩

/-! ### Errors -/

theorem atLine {n : Nat} (h : Spends limit x) : Spends limit (Eval.atLine n x) :=
  ⟨fun m hm => (atLine_snd n x m).symm ▸ h.run m hm⟩

theorem atExpr {e : Expr} (h : Spends limit x) : Spends limit (Eval.atExpr e x) := by
  rw [atExpr_eq_atLine]
  exact h.atLine

theorem wrapping {x : Eval Unit} {e : Error} (h : Spends limit x) : Spends limit (Template.wrapping e x) := by
  constructor
  intro m hm
  have hx := h.run m hm
  unfold Template.wrapping
  generalize x m = r at hx ⊢
  obtain ⟨r, m'⟩ := r
  cases r with
  | ok a => exact hx
  | error err => exact hx

/-- A check on the way. -/
theorem guard {e : Error} {c : Prop} [Decidable c] {k : Unit → Eval α} (h : Spends limit (k ())) :
    Spends limit (if c then MonadExcept.throw e >>= k else k ()) := by
  split
  · exact throw.bind fun _ => h
  · exact h

/-! ### Lists -/

theorem forM {xs : List α} {f : α → Eval PUnit} (h : ∀ a, Spends limit (f a)) : Spends limit (xs.forM f) := by
  induction xs with
  | nil => exact pure
  | cons a xs ih =>
    change Spends limit (f a >>= fun _ => xs.forM f)
    exact (h a).after ih

theorem mapM {xs : List α} {f : α → Eval β} (h : ∀ a, Spends limit (f a)) : Spends limit (xs.mapM f) := by
  induction xs with
  | nil => exact pure
  | cons a xs ih =>
    rw [List.mapM_cons]
    exact (h a).bind fun _ => ih.bind fun _ => pure

theorem filterM {xs : List α} {f : α → Eval Bool} (h : ∀ a, Spends limit (f a)) : Spends limit (xs.filterM f) := by
  have haux : ∀ xs acc : List α, Spends limit (xs.filterAuxM f acc) := by
    intro xs
    induction xs with
    | nil => exact fun _ => pure
    | cons a xs ih =>
      intro acc
      rw [List.filterAuxM]
      exact (h a).bind fun _ => ih _
  rw [List.filterM]
  exact (haux xs []).bind fun _ => pure

/-! ### Scopes and output -/

theorem push {s : Scope} : Spends limit (Eval.push s) := by
  unfold Eval.push
  exact get fun _ => guard change

theorem pop : Spends limit Eval.pop :=
  change

theorem inScope {s : Scope} (h : Spends limit x) : Spends limit (Eval.inScope s x) := by
  unfold Eval.inScope
  exact push.after (h.bind fun _ => pop.after pure)

theorem capture {x : Eval Unit} (h : Spends limit x) : Spends limit (Eval.capture x) := by
  unfold Eval.capture
  exact context.bind fun _ => change.after (h.after (context.bind fun _ => change.after pure))

theorem isolated {g : Context → Context} {x : Eval Unit} (h : Spends limit x) : Spends limit (Eval.isolated g x) := by
  unfold Eval.isolated
  exact context.bind fun _ => change.after (h.after (context.bind fun _ => change.after pure))

theorem captured {s : String} : Spends limit (Eval.captured s) := by
  unfold Eval.captured
  exact context.bind fun _ => pure

theorem printed {x : Eval Unit} (h : Spends limit x) : Spends limit (Eval.capture x >>= fun s => Eval.captured s) :=
  h.capture.bind fun _ => captured

theorem emit {v : Value} : Spends limit (Eval.emit v) := by
  unfold Eval.emit
  exact guard (get fun _ => write)

/-! ### Functions and macros -/

theorem callBuiltin {w : World} {f : Builtin} {a : Args} : Spends limit (Template.callBuiltin w f a) := by
  unfold Template.callBuiltin
  split
  · exact lift
  · exact lift.bind fun _ => alloc.bind fun _ => pure
  · split
    · exact ask
    · exact throw
  · exact tick.after pure

theorem loopChanged {ref : Nat} {vs : List Value} : Spends limit (Template.loopChanged ref vs) := by
  unfold Template.loopChanged
  apply get
  intro m
  split
  · split
    · exact pure
    · exact updateCell.after pure
  · exact pure

theorem makeMacro {w : World} {decl : Macro} : Spends limit (Template.makeMacro w decl) := by
  unfold Template.makeMacro
  exact (forM fun _ => enclose).after (context.bind fun _ => alloc.bind fun _ => pure)

theorem callerArg {w : World} {caller : Option Macro} : Spends limit (Template.callerArg w caller) := by
  cases caller with
  | none => exact pure
  | some m => exact makeMacro.bind fun _ => pure

theorem callee {w : World} {name : String} : Spends limit (Template.callee w name) := by
  unfold Template.callee
  apply get
  intro m
  split
  · exact pure
  · exact throw

theorem setAttr {v : Value} {name : String} {x : Value} : Spends limit (Template.setAttr v name x) := by
  unfold Template.setAttr
  split
  · exact updateCell
  · exact throw

theorem inherit_ {w : World} {v : Value} : Spends limit (Template.inherit_ w v) := by
  unfold Template.inherit_
  apply context.bind
  intro c
  apply guard
  split
  · apply guard
    split
    · exact throw
    · exact change
  · exact throw

theorem forItems {assign : Value → Eval Unit} {body : Eval Unit} {ref i : Nat} {previous : Option Value}
    {vs : List Value} (hassign : ∀ v, Spends limit (assign v)) (hbody : Spends limit body) :
    Spends limit (Template.forItems assign body ref i previous vs) := by
  induction vs generalizing i previous with
  | nil => exact pure
  | cons v vs ih => exact updateCell.after ((hassign v).after (enterBody.after (hbody.after ih)))

end Spends

/-- Within the room every function of the evaluator leaves a budget whose flag tells. -/
structure Spending (w : World) (limit room : Nat) : Prop where
  expr : ∀ e, Spends limit (evalExpr w room e)
  chain : ∀ v cs, Spends limit (evalChain w room v cs)
  bound : ∀ o, Spends limit (evalBound w room o)
  filter : ∀ e text, Spends limit (evalFilter w room e text)
  args : ∀ as caller, Spends limit (evalArgs w room as caller)
  call : ∀ f as caller, Spends limit (evalCall w room f as caller)
  method : ∀ v name a, Spends limit (callMethod w room v name a)
  value : ∀ v a, Spends limit (callValue w room v a)
  macro_ : ∀ c a, Spends limit (callMacro w room c a)
  block : ∀ name, Spends limit (callBlock w room name)
  super : Spends limit (callSuper w room)
  again : ∀ v, Spends limit (loopAgain w room v)
  loop : ∀ loop v, Spends limit (runLoop w room loop v)
  kept : ∀ loop test v, Spends limit (keptItems w room loop test v)
  assign : ∀ t v, Spends limit (assign w room t v)
  include_ : ∀ b, Spends limit (includeTemplate w room b)
  includeNamed : ∀ v ignoreMissing, Spends limit (includeNamed w room v ignoreMissing)
  body : ∀ b, Spends limit (runBody w room b)
  all : ∀ ss, Spends limit (runAll w room ss)
  run : ∀ s, Spends limit (run w room s)
  place : ∀ name, Spends limit (placeBlock w room name)

namespace Spending

variable {w : World} {limit room : Nat}

/-! ### Expressions -/

theorem expr_succ (h : Spending w limit room) (e : Expr) : Spends limit (evalExpr w (room + 1) e) := by
  cases e with
  | var line n =>
    rw [evalExpr]
    exact Spends.ask.atExpr
  | literal line value =>
    rw [evalExpr]
    exact Spends.pure.atExpr
  | list line es =>
    rw [evalExpr]
    exact ((Spends.mapM h.expr).bind fun _ => .pure).atExpr
  | map line es =>
    rw [evalExpr]
    exact ((Spends.mapM fun _ => (h.expr _).bind fun _ => (h.expr _).bind fun _ => .pure).bind fun _ => .pure).atExpr
  | unary line op e =>
    cases op with
    | not =>
      rw [evalExpr]
      exact ((h.expr e).bind fun _ => Spends.lift.bind fun _ => .pure).atExpr
    | negate =>
      rw [evalExpr]
      exact ((h.expr e).bind fun _ => .lift).atExpr
  | binary line op a b =>
    by_cases hand : op = .and
    · subst hand
      rw [evalExpr]
      apply Spends.atExpr
      apply (h.expr a).bind
      intro v
      apply Spends.lift.bind
      intro t
      split
      · exact h.expr b
      · exact .pure
    · by_cases hor : op = .or
      · subst hor
        rw [evalExpr]
        apply Spends.atExpr
        apply (h.expr a).bind
        intro v
        apply Spends.lift.bind
        intro t
        split
        · exact .pure
        · exact h.expr b
      · rw [evalExpr]
        · exact ((h.expr a).bind fun _ => (h.expr b).bind fun _ => .ask).atExpr
        · exact hand
        · exact hor
  | compare line first rest =>
    rw [evalExpr]
    exact ((h.expr first).bind fun v => h.chain v rest).atExpr
  | choice line test yes no =>
    cases no with
    | none =>
      rw [evalExpr]
      apply Spends.atExpr
      apply (h.expr test).bind
      intro v
      apply Spends.lift.bind
      intro t
      split
      · exact h.expr yes
      · exact .pure
    | some no =>
      rw [evalExpr]
      apply Spends.atExpr
      apply (h.expr test).bind
      intro v
      apply Spends.lift.bind
      intro t
      split
      · exact h.expr yes
      · exact h.expr no
  | filter line name operand args =>
    rw [evalExpr]
    exact (h.filter _ _).atExpr
  | test line name e args =>
    rw [evalExpr]
    exact ((h.expr e).bind fun _ => (h.args args none).bind fun _ => Spends.lift.bind fun _ => .pure).atExpr
  | attr line e name =>
    rw [evalExpr]
    exact ((h.expr e).bind fun _ => .ask).atExpr
  | item line e key =>
    rw [evalExpr]
    exact ((h.expr e).bind fun _ => (h.expr key).bind fun _ => .ask).atExpr
  | slice line e start stop step =>
    rw [evalExpr]
    apply Spends.atExpr
    apply (h.expr e).bind
    intro v
    apply (h.bound start).bind
    intro low
    apply (h.bound stop).bind
    intro high
    exact (h.bound step).bind fun _ => .lift
  | call line f args =>
    rw [evalExpr]
    exact (h.call f args none).atExpr

theorem chain_succ (h : Spending w limit room) (v : Value) (cs : List (Comparison × Expr)) :
    Spends limit (evalChain w (room + 1) v cs) := by
  cases cs with
  | nil =>
    unfold evalChain
    exact .pure
  | cons c cs =>
    unfold evalChain
    apply (h.expr c.2).bind
    intro x
    apply Spends.ask.bind
    intro holds
    split
    · exact .pure
    · split
      · exact h.chain x cs
      · exact .pure

theorem bound_succ (h : Spending w limit room) (o : Option Expr) : Spends limit (evalBound w (room + 1) o) := by
  cases o with
  | none =>
    unfold evalBound
    exact .pure
  | some e =>
    unfold evalBound
    exact h.expr e

theorem filter_succ (h : Spending w limit room) (e : Expr) (text : Value) :
    Spends limit (evalFilter w (room + 1) e text) := by
  unfold evalFilter
  apply Spends.atExpr
  split
  · next line name operand args =>
    have happly : ∀ v : Value, Spends limit (evalArgs w room args none >>= fun a =>
        ask fun m => Filter.apply m.setting name v a) :=
      fun v => (h.args args none).bind fun _ => .ask
    cases operand with
    | none => exact Spends.pure.bind happly
    | some e => exact (h.filter e text).bind happly
  · exact h.expr e

/-! ### Calls -/

theorem args_succ (h : Spending w limit room) (as : List Arg) (caller : Option Macro) :
    Spends limit (evalArgs w (room + 1) as caller) := by
  unfold evalArgs
  apply (Spends.mapM fun a => ?_).bind
  · intro positional
    apply (Spends.mapM fun a => ?_).bind
    · intro named
      exact Spends.callerArg.bind fun _ => .pure
    · cases a with
      | named n e => exact (h.expr e).bind fun _ => .pure
      | spreadNamed e => exact (h.expr e).bind fun _ => .lift
      | _ => exact .pure
  · cases a with
    | positional e => exact (h.expr e).bind fun _ => .pure
    | spread e => exact (h.expr e).bind fun _ => .ask
    | _ => exact .pure

theorem call_succ (h : Spending w limit room) (f : Expr) (as : List Arg) (caller : Option Macro) :
    Spends limit (evalCall w (room + 1) f as caller) := by
  unfold evalCall
  split
  · exact (h.block _).printed
  · next e name _ =>
    apply (h.expr e).bind
    intro v
    apply (h.args as caller).bind
    intro a
    exact h.method v name a
  · apply (h.args as caller).bind
    intro a
    split
    · exact h.super.printed
    · exact .throw
    · next v => exact (h.again v).printed
    · exact .throw
    · exact Spends.callee.bind fun v => h.value v a
  · apply (h.expr f).bind
    intro v
    apply (h.args as caller).bind
    intro a
    exact h.value v a

theorem method_succ (h : Spending w limit room) (v : Value) (name : String) (a : Args) :
    Spends limit (callMethod w (room + 1) v name a) := by
  unfold callMethod
  split
  · exact .loopChanged
  · exact .ask
  · exact .throw
  · apply Spends.get
    intro m
    split
    · next f _ => exact h.value f a
    · exact .throw

theorem value_succ (h : Spending w limit room) (v : Value) (a : Args) : Spends limit (callValue w (room + 1) v a) := by
  unfold callValue
  split
  · exact .callBuiltin
  · apply Spends.get
    intro m
    split
    · next c _ => exact h.macro_ c a
    · exact .throw
  · exact .throw

theorem macro_succ (h : Spending w limit room) (c : Closure) (a : Args) :
    Spends limit (callMacro w (room + 1) c a) := by
  unfold callMacro
  apply Spends.lift.bind
  intro values
  apply Spends.get
  intro m
  apply Spends.guard
  apply (Spends.isolated _).bind
  · exact fun _ => .captured
  · refine (Spends.forM fun x => ?_).after (h.all _)
    dsimp only
    split
    · next e _ _ => exact (h.expr e).bind fun _ => .store
    · exact .store

/-! ### Blocks and loops -/

theorem block_succ (h : Spending w limit room) (name : String) : Spends limit (callBlock w (room + 1) name) := by
  unfold callBlock
  apply Spends.context.bind
  intro c
  split
  · exact .throw
  · next body _ =>
    apply Spends.context.bind
    intro d
    exact Spends.change.after ((h.body body).inScope.after .change)

theorem super_succ (h : Spending w limit room) : Spends limit (callSuper w (room + 1)) := by
  unfold callSuper
  apply Spends.context.bind
  intro c
  split
  · exact .throw
  · apply Spends.context.bind
    intro d
    split
    · exact .throw
    · split
      · exact .throw
      · next body _ => exact Spends.change.after ((h.body body).inScope.wrapping.after .change)

theorem again_succ (h : Spending w limit room) (v : Value) : Spends limit (loopAgain w (room + 1) v) := by
  unfold loopAgain
  apply Spends.get
  intro m
  split
  · exact .throw
  · split
    · exact .throw
    · next loop _ => exact h.loop loop v

theorem loop_succ (h : Spending w limit room) (loop : Loop) (v : Value) :
    Spends limit (runLoop w (room + 1) loop v) := by
  unfold runLoop
  apply Spends.atExpr
  apply Spends.guard
  apply Spends.ask.bind
  intro items
  apply Spends.get
  intro m
  apply Spends.alloc.bind
  intro ref
  exact (Spends.forItems (h.assign loop.target) (h.all loop.body)).inScope

theorem kept_succ (h : Spending w limit room) (loop : Loop) (test : Expr) (v : Value) :
    Spends limit (keptItems w (room + 1) loop test v) := by
  unfold keptItems
  apply Spends.atExpr
  apply Spends.ask.bind
  intro items
  apply Spends.inScope
  apply (Spends.filterM fun x => ?_).bind
  · exact fun _ => .pure
  · apply (h.assign loop.target x).after
    apply (h.expr test).bind
    intro t
    exact Spends.lift.atExpr

theorem assign_succ (h : Spending w limit room) (t : Target) (v : Value) :
    Spends limit (Template.assign w (room + 1) t v) := by
  cases t with
  | name line n =>
    unfold Template.assign
    exact .store
  | attr line e n =>
    unfold Template.assign
    exact (h.expr e).bind fun _ => Spends.setAttr.atExpr
  | list line ts =>
    unfold Template.assign
    apply Spends.ask.atLine.bind
    intro vs
    exact .forM fun x => h.assign x.1 x.2

/-! ### Templates -/

theorem include_succ (h : Spending w limit room) (b : Body) : Spends limit (includeTemplate w (room + 1) b) := by
  unfold includeTemplate
  apply Spends.get
  intro m
  apply Spends.guard
  apply Spends.context.bind
  intro c
  exact Spends.change.after ((h.body b).wrapping.after .change)

theorem includeNamed_succ (h : Spending w limit room) (v : Value) (ignoreMissing : Bool) :
    Spends limit (Template.includeNamed w (room + 1) v ignoreMissing) := by
  unfold Template.includeNamed
  apply Spends.lift.bind
  intro r
  split
  · next b => exact h.include_ b
  · split
    · exact .pure
    · exact .throw

theorem body_succ (h : Spending w limit room) (b : Body) : Spends limit (runBody w (room + 1) b) := by
  unfold runBody
  apply Spends.context.bind
  intro c
  apply Spends.change.after
  apply (h.all b.stmts).after
  apply Spends.context.bind
  intro d
  split
  · exact .change
  · next parent _ => exact Spends.change.after ((h.body parent).after .change)

theorem all_succ (h : Spending w limit room) (ss : List Stmt) : Spends limit (runAll w (room + 1) ss) := by
  unfold runAll
  exact .forM h.run

theorem place_succ (h : Spending w limit room) (name : String) : Spends limit (placeBlock w (room + 1) name) := by
  unfold placeBlock
  apply Spends.context.bind
  intro c
  split
  · exact h.block name
  · exact .pure

/-! ### Statements -/

/-- What an output statement prints. -/
theorem output_succ (h : Spending w limit room) (e : Expr) : Spends limit (Template.run w (room + 1) (.emit e)) := by
  unfold Template.run
  dsimp only
  split
  · exact h.super.atExpr
  · next x => exact (h.expr x).bind fun v => (h.again v).atExpr
  · exact (h.place _).atExpr
  · exact (h.expr e).bind fun _ => Spends.emit.atExpr

theorem iteration_succ (h : Spending w limit room) (line : Nat) (loop : Loop) :
    Spends limit (Template.run w (room + 1) (.forLoop line loop)) := by
  have hrun : ∀ v : Value, Spends limit (runLoop w room loop v >>= fun _ =>
      if loop.other.isEmpty then pure () else do
        let items ← ask fun m => m.iterate v
        if items.isEmpty then runAll w room loop.other) := by
    intro v
    apply (h.loop loop v).after
    split
    · exact .pure
    · apply Spends.ask.bind
      intro items
      split
      · exact h.all _
      · exact .pure
  unfold Template.run
  apply (h.expr loop.subject).bind
  intro v
  cases loop.keep with
  | none => exact Spends.pure.bind hrun
  | some test => exact (h.kept loop test v).bind hrun

/-- A template that is imported runs in a scope of its own, and prints nothing. -/
theorem imported_succ (h : Spending w limit room) (line : Nat) (e : Expr) :
    Spends limit (capture do
      atLine line (push {})
      let v ← evalExpr w room e
      atLine line (Template.includeNamed w room v false)) := by
  apply Spends.capture
  apply Spends.push.atLine.after
  apply (h.expr e).bind
  intro v
  exact (h.includeNamed v false).atLine

theorem run_succ (h : Spending w limit room) (s : Stmt) : Spends limit (Template.run w (room + 1) s) := by
  cases s with
  | text s =>
    unfold Template.run
    exact .write
  | emit e => exact h.output_succ e
  | forLoop line loop => exact h.iteration_succ line loop
  | ifThen test yes no =>
    unfold Template.run
    apply (h.expr test).bind
    intro v
    apply Spends.lift.atExpr.bind
    intro t
    split
    · exact h.all yes
    · exact h.all no
  | withValues line bindings body =>
    unfold Template.run
    apply Spends.push.atLine.after
    refine (Spends.forM fun b => ?_).after ((h.all body).after .pop)
    exact (h.expr b.2).bind fun v => h.assign b.1 v
  | set line target e =>
    unfold Template.run
    exact (h.expr e).bind fun v => h.assign target v
  | setBlock line target filter body =>
    unfold Template.run
    apply (h.all body).capture.bind
    intro s
    apply Spends.captured.bind
    intro v
    cases filter with
    | none => exact h.assign target v
    | some f => exact (h.filter f v).bind fun x => h.assign target x
  | autoescape mode body =>
    unfold Template.run
    apply (h.expr mode).bind
    intro v
    apply Spends.lift.atExpr.bind
    intro escape
    apply Spends.context.bind
    intro c
    exact Spends.change.after ((h.all body).after .change)
  | filterBlock line filter body =>
    unfold Template.run
    apply (h.all body).capture.bind
    intro s
    apply Spends.captured.bind
    intro v
    exact (h.filter filter v).bind fun _ => Spends.emit.atExpr
  | block line name body =>
    unfold Template.run
    exact (h.place name).atLine
  | inherit line e =>
    unfold Template.run
    exact (h.expr e).bind fun _ => Spends.inherit_.atExpr
  | includeFile line e ignoreMissing =>
    unfold Template.run
    exact (h.expr e).bind fun v => (h.includeNamed v ignoreMissing).atExpr
  | importAs line e target =>
    unfold Template.run
    apply (h.imported_succ line e).after
    apply Spends.context.bind
    intro c
    exact Spends.pop.after (h.assign target _)
  | importNames line e names =>
    unfold Template.run
    apply (h.imported_succ line e).after
    apply Spends.get
    intro m
    exact Spends.pop.after (.forM fun _ => .store)
  | define line m =>
    unfold Template.run
    exact Spends.makeMacro.bind fun _ => .store
  | callBlock line call caller =>
    unfold Template.run
    dsimp only
    split
    · next f args => exact (h.call f args (some caller)).atExpr.bind fun _ => Spends.emit.atExpr
    · exact .pure
  | run line call =>
    unfold Template.run
    exact (h.expr call).bind fun _ => .pure

/-! ### Any room -/

theorem zero : Spending w limit 0 where
  expr _ := by unfold evalExpr; exact .throw
  chain _ _ := by unfold evalChain; exact .throw
  bound _ := by unfold evalBound; exact .throw
  filter _ _ := by unfold evalFilter; exact .throw
  args _ _ := by unfold evalArgs; exact .throw
  call _ _ _ := by unfold evalCall; exact .throw
  method _ _ _ := by unfold callMethod; exact .throw
  value _ _ := by unfold callValue; exact .throw
  macro_ _ _ := by unfold callMacro; exact .throw
  block _ := by unfold callBlock; exact .throw
  super := by unfold callSuper; exact .throw
  again _ := by unfold loopAgain; exact .throw
  loop _ _ := by unfold runLoop; exact .throw
  kept _ _ _ := by unfold keptItems; exact .throw
  assign _ _ := by unfold Template.assign; exact .throw
  include_ _ := by unfold includeTemplate; exact .throw
  includeNamed _ _ := by unfold Template.includeNamed; exact .throw
  body _ := by unfold runBody; exact .throw
  all _ := by unfold runAll; exact .throw
  run _ := by unfold Template.run; exact .throw
  place _ := by unfold placeBlock; exact .throw

theorem succ (h : Spending w limit room) : Spending w limit (room + 1) where
  expr := h.expr_succ
  chain := h.chain_succ
  bound := h.bound_succ
  filter := h.filter_succ
  args := h.args_succ
  call := h.call_succ
  method := h.method_succ
  value := h.value_succ
  macro_ := h.macro_succ
  block := h.block_succ
  super := h.super_succ
  again := h.again_succ
  loop := h.loop_succ
  kept := h.kept_succ
  assign := h.assign_succ
  include_ := h.include_succ
  includeNamed := h.includeNamed_succ
  body := h.body_succ
  all := h.all_succ
  run := h.run_succ
  place := h.place_succ

end Spending

theorem spending (w : World) (limit room : Nat) : Spending w limit room := by
  induction room with
  | zero => exact .zero
  | succ room ih => exact ih.succ

/-- A render under a limit ends with that limit, whatever it ran, and its flag says whether it was kept. -/
theorem tells_renderBody (w : World) (name : String) (stmts : List Stmt) (b : Budget) :
    (renderBody w name stmts b.reset).2.budget.Tells b.max := by
  unfold renderBody
  -- The room is a large number that nothing may unfold.
  generalize roomFor stmts = room
  exact ((spending w b.max room).body ⟨name, stmts⟩).run _ (Budget.Tells.reset rfl)

end SecureLayout.Template
