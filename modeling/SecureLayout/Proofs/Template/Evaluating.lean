import SecureLayout.Proofs.Template.Scoping

/-!
Evaluation of expressions and calls keeps the count of loop bodies. Main statement: what every function of the
evaluator keeps within some room, and that expressions and calls keep it within one more.
-/

namespace SecureLayout.Template

open Eval

/-- Within the room the evaluator keeps the count of loop bodies. -/
structure Evaluates (w : World) (l : Limits) (room : Nat) : Prop where
  expr : ∀ e, tickFunction ∉ e.names → Sound l Value.Tickless (evalExpr w room e)
  chain : ∀ v cs, v.Tickless → tickFunction ∉ comparisonsNames cs → Sound l Value.Tickless (evalChain w room v cs)
  bound : ∀ o, tickFunction ∉ optionNames o → Sound l Value.Tickless (evalBound w room o)
  filter : ∀ e text, tickFunction ∉ e.names → text.Tickless → Sound l Value.Tickless (evalFilter w room e text)
  args : ∀ as caller, tickFunction ∉ argsNames as → (∀ m ∈ caller, m.Metered) →
    Sound l Args.Tickless (evalArgs w room as caller)
  call : ∀ f as caller, tickFunction ∉ f.names → tickFunction ∉ argsNames as → (∀ m ∈ caller, m.Metered) →
    Sound l Value.Tickless (evalCall w room f as caller)
  method : ∀ v name a, v.Tickless → a.Tickless → Sound l Value.Tickless (callMethod w room v name a)
  value : ∀ v a, v.Tickless → a.Tickless → Sound l Value.Tickless (callValue w room v a)
  macro_ : ∀ c a, c.decl.Metered → a.Tickless → Sound l Value.Tickless (callMacro w room c a)
  block : ∀ name, Sound l (fun _ => True) (callBlock w room name)
  super : Sound l (fun _ => True) (callSuper w room)
  again : ∀ v, v.Tickless → Sound l (fun _ => True) (loopAgain w room v)
  loop : ∀ loop v, loop.Metered → v.Tickless → Sound l (fun _ => True) (runLoop w room loop v)
  /-- The first statement of a loop body counts what was entered. -/
  entered : ∀ t r, t.IsTick → (∀ x ∈ r, x.Metered) → tickRoom ≤ room →
    Sound l (fun _ => True) (enterBody >>= fun _ => runAll w room (t :: r))
  kept : ∀ loop test v, loop.Metered → tickFunction ∉ test.names → v.Tickless →
    Sound l Value.Tickless (keptItems w room loop test v)
  assign : ∀ t v, tickFunction ∉ t.names → v.Tickless → Sound l (fun _ => True) (assign w room t v)
  include_ : ∀ b, b.Metered → Sound l (fun _ => True) (includeTemplate w room b)
  includeNamed : ∀ v ignoreMissing, v.Tickless → Sound l (fun _ => True) (includeNamed w room v ignoreMissing)
  body : ∀ b, b.Metered → Sound l (fun _ => True) (runBody w room b)
  all : ∀ ss, (∀ s ∈ ss, s.Metered) → Sound l (fun _ => True) (runAll w room ss)
  run : ∀ s, s.Metered → Sound l (fun _ => True) (run w room s)
  place : ∀ name, Sound l (fun _ => True) (placeBlock w room name)

namespace Evaluates

variable {w : World} {l : Limits} {room : Nat}

/-! ### Expressions -/

theorem truth {v : Value} : Sound l (fun _ => True) (lift v.truth) :=
  .lift ⟨fun _ _ => trivial⟩

theorem expr_succ (h : Evaluates w l room) (hw : w.Guarded) (e : Expr) (he : tickFunction ∉ e.names) :
    Sound l Value.Tickless (evalExpr w (room + 1) e) := by
  cases e with
  | var line n =>
    have hn : n ≠ tickFunction := fun heq => he (heq ▸ List.mem_singleton.2 rfl)
    rw [evalExpr]
    apply Sound.atExpr
    apply Sound.ask (fun _ _ => rfl)
    intro m hm
    exact .ok (Value.tickless_getD (fun v hv => (hm.lookup? hw v hv).other hn) (.undefined _))
  | literal line value =>
    rw [evalExpr]
    exact (Sound.pure (Value.tickless_ofLiteral value)).atExpr
  | list line es =>
    rw [evalExpr]
    apply Sound.atExpr
    apply (Sound.mapM fun e hmem => h.expr e ?_).bind
    · intro vs hvs
      exact .pure (.list hvs)
    · intro hmem'
      refine he ?_
      rw [Expr.names, exprsNames_eq]
      exact List.mem_flatMap.2 ⟨e, hmem, hmem'⟩
  | map line es =>
    rw [evalExpr]
    apply Sound.atExpr
    have hes : ∀ x ∈ es, tickFunction ∉ x.1.names ∧ tickFunction ∉ x.2.names := by
      rw [Expr.names, pairsNames_eq] at he
      intro x hx
      constructor
      · exact fun hmem => he (List.mem_flatMap.2 ⟨x, hx, List.mem_append_left _ hmem⟩)
      · exact fun hmem => he (List.mem_flatMap.2 ⟨x, hx, List.mem_append_right _ hmem⟩)
    apply (Sound.mapM (q := fun e => e.1.Tickless ∧ e.2.Tickless) fun x hx => ?_).bind
    · intro vs hvs
      exact .pure (Value.tickless_mapOf hvs)
    · apply (h.expr _ (hes x hx).1).bind
      intro k hk
      apply (h.expr _ (hes x hx).2).bind
      intro v hv
      exact .pure ⟨hk, hv⟩
  | unary line op e =>
    cases op with
    | not =>
      rw [evalExpr]
      apply Sound.atExpr
      apply (h.expr e he).bind
      intro v _
      exact truth.bind fun _ _ => .pure (.bool _)
    | negate =>
      rw [evalExpr]
      apply Sound.atExpr
      apply (h.expr e he).bind
      intro v _
      exact .lift Value.gives_negate
  | binary line op a b =>
    simp only [Expr.names, List.mem_append, not_or] at he
    by_cases hand : op = .and
    · subst hand
      rw [evalExpr]
      apply Sound.atExpr
      apply (h.expr a he.1).bind
      intro v hv
      apply truth.bind
      intro t _
      split
      · exact h.expr b he.2
      · exact .pure hv
    · by_cases hor : op = .or
      · subst hor
        rw [evalExpr]
        apply Sound.atExpr
        apply (h.expr a he.1).bind
        intro v hv
        apply truth.bind
        intro t _
        split
        · exact .pure hv
        · exact h.expr b he.2
      · rw [evalExpr]
        · apply Sound.atExpr
          apply (h.expr a he.1).bind
          intro x hx
          apply (h.expr b he.2).bind
          intro y hy
          exact .ask (fun _ _ => rfl) fun m _ => Value.gives_binary hx hy
        · exact hand
        · exact hor
  | compare line first rest =>
    simp only [Expr.names, List.mem_append, not_or] at he
    rw [evalExpr]
    apply Sound.atExpr
    apply (h.expr first he.1).bind
    intro v hv
    exact h.chain v rest hv he.2
  | choice line test yes no =>
    simp only [Expr.names, List.mem_append, not_or] at he
    cases no with
    | none =>
      rw [evalExpr]
      apply Sound.atExpr
      apply (h.expr test he.1).bind
      intro v _
      apply truth.bind
      intro t _
      split
      · exact h.expr yes he.2.1
      · exact .pure (.undefined _)
    | some no =>
      rw [evalExpr]
      apply Sound.atExpr
      apply (h.expr test he.1).bind
      intro v _
      apply truth.bind
      intro t _
      split
      · exact h.expr yes he.2.1
      · exact h.expr no he.2.2
  | filter line name operand args =>
    rw [evalExpr]
    exact (h.filter _ _ he (.undefined _)).atExpr
  | test line name e args =>
    simp only [Expr.names, List.mem_cons, List.mem_append, not_or] at he
    rw [evalExpr]
    apply Sound.atExpr
    apply (h.expr e he.2.1).bind
    intro v _
    apply (h.args args none he.2.2 (fun _ hm => absurd hm (Option.not_mem_none _))).bind
    intro a _
    exact (Sound.lift (p := fun _ => True) ⟨fun _ _ => trivial⟩).bind fun _ _ => .pure (.bool _)
  | attr line e name =>
    simp only [Expr.names, List.mem_cons, not_or] at he
    rw [evalExpr]
    apply Sound.atExpr
    apply (h.expr e he.2).bind
    intro v hv
    exact .ask (fun _ _ => rfl) fun m hm => Value.gives_orUndefined (hm.attr? hv)
  | item line e key =>
    simp only [Expr.names, List.mem_append, not_or] at he
    rw [evalExpr]
    apply Sound.atExpr
    apply (h.expr e he.1).bind
    intro v hv
    apply (h.expr key he.2).bind
    intro k _
    exact .ask (fun _ _ => rfl) fun m hm => Value.gives_orUndefined (hm.item? hv)
  | slice line e start stop step =>
    simp only [Expr.names, List.mem_append, not_or] at he
    rw [evalExpr]
    apply Sound.atExpr
    apply (h.expr e he.1).bind
    intro v hv
    apply (h.bound start he.2.1).bind
    intro low _
    apply (h.bound stop he.2.2.1).bind
    intro high _
    apply (h.bound step he.2.2.2).bind
    intro n _
    exact .lift (Value.gives_slice hv)
  | call line f args =>
    simp only [Expr.names, List.mem_append, not_or] at he
    rw [evalExpr]
    exact (h.call f args none he.1 he.2 (fun _ hm => absurd hm (Option.not_mem_none _))).atExpr

theorem chain_succ (h : Evaluates w l room) (v : Value) (cs : List (Comparison × Expr)) (hv : v.Tickless)
    (hcs : tickFunction ∉ comparisonsNames cs) : Sound l Value.Tickless (evalChain w (room + 1) v cs) := by
  cases cs with
  | nil =>
    unfold evalChain
    exact .pure hv
  | cons c cs =>
    simp only [comparisonsNames, List.mem_append, not_or] at hcs
    unfold evalChain
    apply (h.expr c.2 hcs.1).bind
    intro x hx
    apply (Sound.ask (p := fun _ => True) (fun _ _ => rfl) fun _ _ => ⟨fun _ _ => trivial⟩).bind
    intro holds _
    split
    · exact .pure (.bool _)
    · split
      · exact h.chain x cs hx hcs.2
      · exact .pure (.bool _)

theorem bound_succ (h : Evaluates w l room) (o : Option Expr) (ho : tickFunction ∉ optionNames o) :
    Sound l Value.Tickless (evalBound w (room + 1) o) := by
  cases o with
  | none =>
    unfold evalBound
    exact .pure .none
  | some e =>
    unfold evalBound
    exact h.expr e ho

theorem noCaller : ∀ m ∈ (none : Option Macro), m.Metered :=
  fun _ hm => absurd hm (Option.not_mem_none _)

theorem filter_succ (h : Evaluates w l room) (e : Expr) (text : Value) (he : tickFunction ∉ e.names)
    (ht : text.Tickless) : Sound l Value.Tickless (evalFilter w (room + 1) e text) := by
  unfold evalFilter
  apply Sound.atExpr
  split
  · next line name operand args =>
    simp only [Expr.names, List.mem_cons, List.mem_append, not_or] at he
    have happly : ∀ v : Value, v.Tickless → Sound l Value.Tickless (evalArgs w room args none >>= fun a =>
        ask fun m => Filter.apply m.setting name v a) := by
      intro v hv
      apply (h.args args none he.2.2 noCaller).bind
      intro a ha
      exact .ask (fun _ _ => rfl) fun m _ => Filter.gives_apply hv ha
    cases operand with
    | none => exact (Sound.pure ht).bind happly
    | some e => exact (h.filter e text he.2.1 ht).bind happly
  · exact h.expr e he

/-! ### Calls -/

theorem callerArg {caller : Option Macro} (hw : w.Guarded) (h : ∀ m ∈ caller, m.Metered) :
    Sound l (fun es => ∀ e ∈ es, e.2.Tickless) (callerArg w caller) := by
  cases caller with
  | none => exact .pure fun e he => absurd he List.not_mem_nil
  | some m =>
    apply (Sound.makeMacro hw (h m rfl)).bind
    intro v hv
    apply Sound.pure
    intro e he
    rw [List.mem_singleton.1 he]
    exact hv

theorem args_succ (h : Evaluates w l room) (hw : w.Guarded) (as : List Arg) (caller : Option Macro)
    (has : tickFunction ∉ argsNames as) (hcaller : ∀ m ∈ caller, m.Metered) :
    Sound l Args.Tickless (evalArgs w (room + 1) as caller) := by
  have hnames : ∀ a ∈ as, tickFunction ∉ a.names := by
    rw [argsNames_eq] at has
    exact fun a ha hmem => has (List.mem_flatMap.2 ⟨a, ha, hmem⟩)
  unfold evalArgs
  apply (Sound.mapM (q := fun vs => ∀ v ∈ vs, v.Tickless) _).bind
  · intro positional hpositional
    apply (Sound.mapM (q := fun es => ∀ e ∈ es, e.2.Tickless) _).bind
    · intro named hnamed
      apply (callerArg hw hcaller).bind
      intro given hgiven
      apply Sound.pure
      constructor
      · intro v hv
        obtain ⟨vs, hvs, hv⟩ := List.mem_flatten.1 hv
        exact hpositional vs hvs v hv
      · intro e he
        rcases List.mem_append.1 (Entries.mem_ofList he) with he | he
        · obtain ⟨es, hes, he⟩ := List.mem_flatten.1 he
          exact hnamed es hes e he
        · exact hgiven e he
    · intro a ha
      have ha := hnames a ha
      cases a with
      | named n e =>
        simp only [Arg.names, List.mem_cons, not_or] at ha
        apply (h.expr e ha.2).bind
        intro v hv
        apply Sound.pure
        intro x hx
        rw [List.mem_singleton.1 hx]
        exact hv
      | spreadNamed e =>
        apply (h.expr e ha).bind
        intro v hv
        exact .lift (gives_namedFrom hv)
      | _ => exact .pure fun x hx => absurd hx List.not_mem_nil
  · intro a ha
    have ha := hnames a ha
    cases a with
    | positional e =>
      apply (h.expr e ha).bind
      intro v hv
      apply Sound.pure
      intro x hx
      rw [List.mem_singleton.1 hx]
      exact hv
    | spread e =>
      apply (h.expr e ha).bind
      intro v hv
      exact .iterate hv
    | _ => exact .pure fun x hx => absurd hx List.not_mem_nil

theorem printed {x : Eval Unit} (hx : Sound l (fun _ => True) x) :
    Sound l Value.Tickless (capture x >>= fun s => captured s) :=
  hx.capture.bind fun _ _ => .captured

theorem call_succ (h : Evaluates w l room) (hw : w.Guarded) (f : Expr) (as : List Arg) (caller : Option Macro)
    (hf : tickFunction ∉ f.names) (has : tickFunction ∉ argsNames as) (hcaller : ∀ m ∈ caller, m.Metered) :
    Sound l Value.Tickless (evalCall w (room + 1) f as caller) := by
  have hargs := h.args as caller has hcaller
  unfold evalCall
  split
  · exact printed (h.block _)
  · next line e name _ =>
    simp only [Expr.names, List.mem_cons, not_or] at hf
    apply (h.expr e hf.2).bind
    intro v hv
    apply hargs.bind
    intro a ha
    exact h.method v name a hv ha
  · next line name =>
    have hn : name ≠ tickFunction := fun heq => hf (heq ▸ List.mem_singleton.2 rfl)
    apply hargs.bind
    intro a ha
    split
    · exact printed h.super
    · exact .throw
    · next v => exact printed (h.again v (ha.positional v (List.mem_singleton.2 rfl)))
    · exact .throw
    · apply (Sound.callee hw hn).bind
      intro v hv
      exact h.value v a hv ha
  · apply (h.expr f hf).bind
    intro v hv
    apply hargs.bind
    intro a ha
    exact h.value v a hv ha

theorem method_succ (h : Evaluates w l room) (v : Value) (name : String) (a : Args) (hv : v.Tickless)
    (ha : a.Tickless) : Sound l Value.Tickless (callMethod w (room + 1) v name a) := by
  unfold callMethod
  split
  · exact .loopChanged
  · exact .loopCycle ha.positional
  · exact .throw
  · apply Sound.get (fun _ _ => rfl)
    intro m hm
    split
    · next f hf => exact h.value f a (hm.attr? hv f hf) ha
    · exact .throw

theorem value_succ (h : Evaluates w l room) (v : Value) (a : Args) (hv : v.Tickless)
    (ha : a.Tickless) : Sound l Value.Tickless (callValue w (room + 1) v a) := by
  unfold callValue
  split
  · exact .callBuiltin (Value.tickless_function.1 hv) ha
  · apply Sound.get (fun _ _ => rfl)
    intro m hm
    split
    · next c hc =>
      cases hm.cell hc with
      | macro_ hc => exact h.macro_ c a hc ha
    · exact .throw
  · exact .throw

/-- What a parameter is called and what it is given by default do not name the counting function. -/
theorem parameter_names {m : Macro} (h : m.Metered) : ∀ d ∈ m.withDefaults, d.1 ≠ tickFunction ∧
    ∀ e ∈ d.2, tickFunction ∉ e.names := by
  intro d hd
  have hhead := h.head
  cases m with
  | mk line name params defaults body =>
    simp only [Macro.headNames, List.mem_cons, List.mem_append, not_or] at hhead
    obtain ⟨hparam, hdefault⟩ := List.of_mem_zip hd
    refine ⟨fun heq => hhead.2.1 (heq ▸ hparam), ?_⟩
    intro e he hmem
    rcases List.mem_append.1 hdefault with hnone | hsome
    · rw [List.eq_of_mem_replicate hnone] at he
      cases he
    · obtain ⟨a, ha, heq⟩ := List.mem_map.1 hsome
      rw [← heq] at he
      cases he
      rw [exprsNames_eq] at hhead
      exact hhead.2.2 (List.mem_flatMap.2 ⟨_, ha, hmem⟩)

theorem scope_guarded {c : Closure} {a : Args} (ha : a.Tickless) : (c.scope a).Guarded := by
  have hlocals : ∀ e ∈ (c.scope a).locals, e.1 = "caller" ∧ e.2.Tickless := by
    intro e he
    unfold Closure.scope at he
    dsimp only at he
    split at he
    · rw [List.mem_singleton.1 he]
      exact ⟨rfl, Value.tickless_getD ha.get? (.undefined _)⟩
    · cases he
  refine ⟨?_, fun e he => (hlocals e he).2, fun l hl => absurd hl (Option.not_mem_none _)⟩
  intro e he
  rw [(hlocals e he).1]
  decide

theorem macro_succ (h : Evaluates w l room) (c : Closure) (a : Args) (hc : c.decl.Metered) (ha : a.Tickless) :
    Sound l Value.Tickless (callMacro w (room + 1) c a) := by
  unfold callMacro
  apply (Sound.lift (gives_bindParameters ha)).bind
  intro values hvalues
  apply Sound.get (fun _ _ => rfl)
  intro m _
  apply Sound.guard
  intro _
  apply (Sound.isolated _ _).bind
  · exact fun _ _ => .captured
  · intro d hd
    refine ⟨?_, fun e he => absurd he List.not_mem_nil, fun b hb => absurd hb (Option.not_mem_none _)⟩
    intro s hs
    rw [List.mem_singleton.1 hs]
    exact scope_guarded ha
  · refine (Sound.forM fun x hx => ?_).after (h.all _ hc.body)
    obtain ⟨hd, hv⟩ := List.of_mem_zip (List.mem_reverse.1 hx)
    obtain ⟨hname, hdefault⟩ := parameter_names hc _ hd
    have hv := hvalues _ hv
    dsimp only
    split
    · next e _ he =>
      apply (h.expr e (hdefault e he)).bind
      intro v hv
      exact .store hname hv
    · exact .store hname hv

end Evaluates

end SecureLayout.Template
