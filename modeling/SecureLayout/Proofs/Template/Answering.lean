import SecureLayout.Proofs.Component.Placeholders
import SecureLayout.Proofs.Template.Data
import SecureLayout.Proofs.Template.Parsed
import SecureLayout.Proofs.Template.Running

/-!
What text with calls in it renders to. Main statement: every call of the function that makes placeholders puts a live
placeholder in its place, with props that carry what the values serve, `renderBody_inline`.
-/

namespace SecureLayout.Template

open Eval

variable {α β : Type} {w : World} {data v : Json.Value} {e : Expr} {m m' m'' : Machine} {room : Nat}

/-! ### Answers -/

/-- The computation answers this value and leaves that state behind. -/
def Answers (x : Eval α) (m : Machine) (a : α) (m' : Machine) : Prop :=
  x m = (.ok a, m')

theorem answers_pure (a : α) (m : Machine) : Answers (pure a) m a m := rfl

theorem answers_ask {f : Machine → Except Error α} {a : α} (h : f m = .ok a) : Answers (ask f) m a m := by
  rw [Answers, ask, h]

theorem answers_lift {r : Except Error α} {a : α} (h : r = .ok a) : Answers (lift r) m a m := by
  rw [Answers, lift, h]

theorem Answers.bind {x : Eval α} {f : α → Eval β} {a : α} {b : β} (h : Answers x m a m')
    (hf : Answers (f a) m' b m'') : Answers (x >>= f) m b m'' := by
  rw [Answers, Evaluates.bind_apply, h]
  exact hf

theorem Answers.atExpr {x : Eval α} {a : α} (h : Answers x m a m') (e : Expr) : Answers (atExpr e x) m a m' := by
  rw [Answers, Eval.atExpr, h]

theorem answers_mapM {γ : Type} {f : γ → Eval β} {xs : List γ} {ys : List β}
    (h : List.Forall₂ (fun x y => Answers (f x) m y m) xs ys) : Answers (xs.mapM f) m ys m := by
  induction h with
  | nil =>
    rw [List.mapM_nil]
    exact answers_pure [] m
  | cons h hrest ih =>
    rw [List.mapM_cons]
    exact h.bind (ih.bind (answers_pure _ m))

/-! ### Names and values -/

/-- A state at the outside of a template that assigns nothing. -/
def AtTop (m : Machine) : Prop :=
  m.context.scopes = [{ base := .data }]

theorem AtTop.lookup? (h : AtTop m) (name : String) :
    m.lookup? w name = (w.data.attr? name).or ((builtin? name).map .function) := by
  rw [Machine.lookup?, h]
  have hscope : m.scopeValue? w name { base := .data } = w.data.attr? name := rfl
  rw [List.findSome?_singleton, hscope]

theorem attr?_ofJson (m : Machine) (v : Json.Value) (name : String) :
    m.attr? (.ofJson v) name = (Value.ofJson v).attr? name := by
  cases v with
  | number x => cases x <;> rfl
  | _ => rfl

theorem item?_ofJson (m : Machine) (v : Json.Value) (k : Nat) :
    m.item? (.ofJson v) (.int k) = (Value.ofJson v).item? (.int k) := by
  cases v with
  | number x => cases x <;> rfl
  | _ => rfl

/-- What looking something up in data answers. -/
def found : Option Json.Value → Value
  | some v => .ofJson v
  | none => .undefined false

theorem orUndefined_found (v : Json.Value) (r : Option Json.Value) :
    (Value.ofJson v).orUndefined (r.map .ofJson) = .ok (found r) := by
  cases r with
  | some u => rfl
  | none =>
    have hdefined : (Value.ofJson v).isUndefined = false := by
      cases v with
      | number x => cases x <;> rfl
      | _ => rfl
    rw [Option.map_none, Value.orUndefined, hdefined]
    rfl

theorem answers_literal (hroom : 0 < room) (line : Nat) (l : Literal) (m : Machine) :
    Answers (evalExpr w room (.literal line l)) m (.ofLiteral l) m := by
  obtain ⟨room, rfl⟩ : ∃ k, room = k + 1 := ⟨room - 1, by omega⟩
  rw [evalExpr]
  exact (answers_pure _ m).atExpr _

/-- A constant with a minus in front of it. -/
theorem answers_negated {l : Literal} {x : Value} (hroom : 0 < room) (line line' : Nat)
    (hx : (Value.ofLiteral l).negate = .ok x) (m : Machine) :
    Answers (evalExpr w (room + 1) (.unary line .negate (.literal line' l))) m x m := by
  rw [evalExpr]
  exact ((answers_literal hroom line' l m).bind (answers_lift hx)).atExpr _

/-- A name answers what the data have under it. -/
theorem answers_var {n : String} (hdata : w.data = .ofJson data) (hm : AtTop m)
    (hname : (data.member? n).isSome ∨ builtin? n = none) (line : Nat) :
    Answers (evalExpr w (room + 1) (.var line n)) m (found (data.member? n)) m := by
  have hvalue : Except.ok ((m.lookup? w n).getD (.undefined false)) =
      (Except.ok (found (data.member? n)) : Except Error Value) := by
    rw [hm.lookup?, hdata, Value.attr?_ofJson]
    cases hv : data.member? n with
    | some v => rfl
    | none =>
      rw [hv] at hname
      rw [hname.resolve_left Bool.false_ne_true]
      rfl
  rw [evalExpr]
  exact (answers_ask hvalue).atExpr _

theorem Answers.attr (h : Answers (evalExpr w room e) m (.ofJson v) m) (line : Nat) (n : String) :
    Answers (evalExpr w (room + 1) (.attr line e n)) m (found (v.member? n)) m := by
  rw [evalExpr]
  refine (h.bind (answers_ask ?_)).atExpr _
  rw [attr?_ofJson, Value.attr?_ofJson]
  exact orUndefined_found v _

theorem Answers.item (h : Answers (evalExpr w room e) m (.ofJson v) m) (hroom : 0 < room) (line line' k : Nat) :
    Answers (evalExpr w (room + 1) (.item line e (.literal line' (.int k)))) m (found (v.item? k)) m := by
  rw [evalExpr]
  refine (h.bind ((answers_literal hroom line' (.int k) m).bind (answers_ask ?_))).atExpr _
  change (Value.ofJson v).orUndefined (m.item? (.ofJson v) (.int k)) = _
  rw [item?_ofJson, Value.item?_ofJson]
  exact orUndefined_found v _

theorem negate_int {n : Nat} (hn : n ≤ Numeric.twoTo 63) : (Value.int n).negate = .ok (.int (-n)) := by
  have hword : (Value.isWord128 (-n) && Value.isWord128 n) = true := by
    have h63 : Numeric.twoTo 63 < Numeric.twoTo 127 := by decide
    simp only [Value.isWord128, Bool.and_eq_true, decide_eq_true_eq]
    omega
  rw [Value.negate, hword, Bool.or_true, if_pos rfl]

/-- An expression that stands for some data answers it. -/
theorem Expr.StandsFor.answers (h : e.StandsFor data v) (hdata : w.data = .ofJson data) (hm : AtTop m)
    (hroom : e.depth < room) : Answers (evalExpr w room e) m (.ofJson v) m := by
  induction h generalizing room with
  | text line t => exact answers_literal (Nat.zero_lt_of_lt hroom) line (.text t) m
  | integer line n => exact answers_literal (Nat.zero_lt_of_lt hroom) line (.int n) m
  | @negative n line line' hn =>
    rw [Expr.depth, Expr.depth] at hroom
    obtain ⟨room, rfl⟩ : ∃ k, room = k + 1 := ⟨room - 1, by omega⟩
    exact answers_negated (l := .int n) (by omega) line line' (negate_int hn) m
  | bool line b => exact answers_literal (Nat.zero_lt_of_lt hroom) line (.bool b) m
  | null line => exact answers_literal (Nat.zero_lt_of_lt hroom) line .none m
  | @var n v line h =>
    obtain ⟨room, rfl⟩ : ∃ k, room = k + 1 := ⟨room - 1, by omega⟩
    have hvar : Answers (evalExpr w (room + 1) (.var line n)) m (found (data.member? n)) m :=
      answers_var hdata hm (.inl (Option.isSome_of_eq_some h)) line
    rwa [h] at hvar
  | @attr e n v u line h hu ih =>
    rw [Expr.depth] at hroom
    obtain ⟨room, rfl⟩ : ∃ k, room = k + 1 := ⟨room - 1, by omega⟩
    have hattr := (ih (Nat.lt_of_succ_lt_succ hroom)).attr line n
    rwa [hu] at hattr
  | @item e vs k u line line' h hk hu ih =>
    rw [Expr.depth] at hroom
    obtain ⟨room, rfl⟩ : ∃ k, room = k + 1 := ⟨room - 1, by omega⟩
    have hfound : (Json.Value.list vs).item? k = some u := by rw [Json.Value.item?, if_pos hk, hu]
    have hdepth : e.depth < room := by omega
    have hitem := (ih hdepth).item (by omega) line line' k
    rwa [hfound] at hitem

/-- What the expression answers goes out as this value. -/
def Expr.Serves (w : World) (e : Expr) (v : Json.Value) : Prop :=
  ∀ (m : Machine) (room : Nat), AtTop m → e.depth < room →
    ∃ x, Answers (evalExpr w room e) m x m ∧ x.toJson m.objectText = .ok v

theorem Expr.StandsFor.serves (h : e.StandsFor data v) (hdata : w.data = .ofJson data) (hv : v.Portable) :
    e.Serves w v :=
  fun _ _ hm hroom => ⟨_, h.answers hdata hm hroom, Value.toJson_ofJson hv⟩

/-! ### Calls -/

/-- Entries of a map answer their keys and what their values serve. -/
theorem answers_entries {props : List (String × Json.Value)} {es : List (Expr × Expr)}
    (h : List.Forall₂ (EntryFor (Expr.Serves w)) props es) (hm : AtTop m) (hroom : pairsDepth es < room) :
    ∃ xs : List (String × Value), Answers (es.mapM fun (k, v) => do
        let k ← evalExpr w room k
        return (k, ← evalExpr w room v)) m (xs.map fun x => (.plainText x.1, x.2)) m ∧
      List.Forall₂ (fun x q => x.1 = q.1 ∧ x.2.toJson m.objectText = .ok q.2) xs props := by
  induction h with
  | nil =>
    refine ⟨[], ?_, .nil⟩
    rw [List.mapM_nil]
    exact answers_pure [] m
  | @cons q p props es hqp hrest ih =>
    obtain ⟨k, e⟩ := p
    obtain ⟨⟨line, hk⟩, he⟩ := hqp
    obtain rfl : k = _ := hk
    simp only [pairsDepth] at hroom
    obtain ⟨xs, hxs, hall⟩ := ih (by omega)
    have hkey : Answers (evalExpr w room (.literal line (.text q.1))) m (.plainText q.1) m :=
      answers_literal (by omega) line (.text q.1) m
    have hserves : e.Serves w q.2 := he
    have hdepth : e.depth < room := by omega
    obtain ⟨x, hvalue, hjson⟩ := hserves m room hm hdepth
    have hentry : Answers (pure (Value.plainText q.1, x)) m (Value.plainText q.1, x) m := answers_pure _ m
    refine ⟨(q.1, x) :: xs, ?_, .cons ⟨rfl, hjson⟩ hall⟩
    rw [List.mapM_cons]
    exact (hkey.bind (hvalue.bind hentry)).bind (hxs.bind (answers_pure _ m))

/-- Two arguments by position. -/
theorem answers_args {e₁ e₂ : Expr} {v₁ v₂ : Value} (h₁ : Answers (evalExpr w room e₁) m v₁ m)
    (h₂ : Answers (evalExpr w room e₂) m v₂ m) :
    Answers (evalArgs w (room + 1) [.positional e₁, .positional e₂] none) m ⟨[v₁, v₂], []⟩ m := by
  rw [evalArgs]
  refine Answers.bind (answers_mapM
    (.cons (h₁.bind (answers_pure [v₁] m)) (.cons (h₂.bind (answers_pure [v₂] m)) .nil))) ?_
  refine Answers.bind (answers_mapM (.cons (answers_pure [] m) (.cons (answers_pure [] m) .nil))) ?_
  exact Answers.bind (answers_pure [] m) (answers_pure _ m)

/-- The function that makes placeholders makes one. -/
theorem answers_component {name : String} {props : Value} {j : Json.Value}
    (hallowed : w.policy.validateComponent name = true) (hregistered : ∀ r ∈ w.registry, r.contains name = true)
    (hprops : props.toJson m.objectText = .ok j) :
    Answers (callBuiltin w .component ⟨[.plainText name, props], []⟩) m
      (.safeText (Component.livePlaceholder name j)) m := by
  have hregistry : (w.registry.any fun r => !r.contains name) = false := by
    cases hr : w.registry with
    | none => rfl
    | some r => simp [hregistered r hr]
  have hplaceholder : placeholder w m.objectText name props = .ok (.safeText (Component.livePlaceholder name j)) := by
    rw [placeholder, hallowed, hregistry, hprops]
    rfl
  refine answers_ask ?_
  change placeholder w m.objectText (String.ofList name.toList) props = _
  rw [String.ofList_toList, hplaceholder]

/-- A name that a placeholder may be made of. -/
structure Placeable (w : World) (name : String) : Prop where
  allowed : w.policy.validateComponent name = true
  registered : ∀ r ∈ w.registry, r.contains name = true

/-- The function that makes placeholders is called by its name. -/
theorem answers_callee (hdata : w.data = .ofJson data) (hfree : data.member? placeholderFunction = none)
    (hm : AtTop m) : Answers (callee w placeholderFunction) m (.function .component) m := by
  have hlookup : m.lookup? w placeholderFunction = some (.function .component) := by
    rw [hm.lookup?, hdata, Value.attr?_ofJson, hfree]
    rfl
  rw [Answers, callee, Evaluates.get_apply, hlookup]
  rfl

theorem Expr.Calls.answers {name : String} {props : List (String × Json.Value)} (h : e.Calls (Expr.Serves w) name props)
    (hplaceable : Placeable w name) (hdata : w.data = .ofJson data)
    (hfree : data.member? placeholderFunction = none) (hm : AtTop m) (hroom : e.depth + 2 < room) :
    Answers (evalExpr w room e) m (.safeText (Component.livePlaceholder name (.ofMembers props))) m := by
  obtain ⟨l, l₁, l₂, l₃, es, rfl, hes⟩ := h
  simp only [Expr.depth, argsDepth, Arg.depth] at hroom
  obtain ⟨room, rfl⟩ : ∃ k, room = k + 4 := ⟨room - 4, by omega⟩
  have hdepth : pairsDepth es < room := by omega
  obtain ⟨xs, hxs, hall⟩ := answers_entries hes hm hdepth
  have hname : Answers (evalExpr w (room + 1) (.literal l₂ (.text name))) m (.plainText name) m :=
    answers_literal (by omega) l₂ (.text name) m
  have hmap : Answers (evalExpr w (room + 1) (.map l₃ es)) m (.mapOf (xs.map fun x => (.plainText x.1, x.2))) m := by
    rw [evalExpr]
    exact Answers.atExpr (Answers.bind hxs (answers_pure (Value.mapOf _) m)) _
  have hplaced := answers_component hplaceable.allowed hplaceable.registered (Value.toJson_mapOf hall)
  rw [evalExpr]
  refine Answers.atExpr ?_ _
  rw [evalCall]
  refine Answers.bind (answers_args hname hmap) ?_
  have hcall : Answers (callValue w (room + 2) (.function .component)
      ⟨[.plainText name, .mapOf (xs.map fun x => (.plainText x.1, x.2))], []⟩) m
        (.safeText (Component.livePlaceholder name (.ofMembers props))) m := by
    rw [callValue]
    exact hplaced
  exact (answers_callee hdata hfree hm).bind hcall

/-! ### Text and calls -/

/-- The placeholders that calls make, each with the text behind it. -/
def callMarks (cs : List ((String × List (String × Json.Value)) × List Char)) : List (Component.Mark × String) :=
  cs.map fun c => (.live c.1.1 (.ofMembers c.1.2), String.ofList c.2)

/-- The page that texts and calls render to. -/
def callPage (head : List Char) (cs : List ((String × List (String × Json.Value)) × List Char)) : String :=
  Component.page (String.ofList head) (callMarks cs)

/-- The state after something was written at the outside of a template. -/
structure Wrote (m : Machine) (s : String) (m' : Machine) : Prop where
  context : m'.context = { m.context with out := m.context.out ++ s }
  budget : m'.budget = m.budget

theorem Wrote.trans {s s' : String} (h : Wrote m s m') (h' : Wrote m' s' m'') : Wrote m (s ++ s') m'' := by
  refine ⟨?_, h'.budget.trans h.budget⟩
  rw [h'.context, h.context, String.append_assoc]

theorem answers_write (h : m.context.discarding = false) (s : String) :
    ∃ m', Answers (write s) m () m' ∧ Wrote m s m' := by
  refine ⟨{ m with context := { m.context with out := m.context.out ++ s }, lastWrite := m.entered }, ?_, ⟨rfl, rfl⟩⟩
  rw [Answers, write, h, if_neg Bool.false_ne_true]

/-- A text writes itself, if there is one. -/
theorem answers_text (h : m.context.discarding = false) (text : List Char) (room : Nat) :
    ∃ m', Answers ((textStmts text).forM fun s => run w (room + 1) s) m () m' ∧ Wrote m (String.ofList text) m' := by
  unfold textStmts
  split
  · next hempty =>
    obtain rfl := List.isEmpty_iff.1 hempty
    exact ⟨m, answers_pure () m, ⟨by simp, rfl⟩⟩
  · obtain ⟨m', hwrite, hwrote⟩ := answers_write h (String.ofList text)
    exact ⟨m', hwrite.bind (answers_pure () m'), hwrote⟩

/-- A call writes a placeholder. -/
theorem answers_emit {name : String} {props : List (String × Json.Value)} (h : e.Calls (Expr.Serves w) name props)
    (hplaceable : Placeable w name) (hdata : w.data = .ofJson data)
    (hfree : data.member? placeholderFunction = none) (hm : AtTop m) (hkept : m.context.discarding = false)
    (hroom : e.depth + 2 < room) : ∃ m', Answers (run w (room + 1) (.emit e)) m () m' ∧
      Wrote m (Component.livePlaceholder name (.ofMembers props)) m' := by
  have hvalue := h.answers hplaceable hdata hfree hm hroom
  obtain ⟨l, l₁, l₂, l₃, es, rfl, hes⟩ := h
  obtain ⟨m', hwrite, hwrote⟩ := answers_write hkept (Component.livePlaceholder name (.ofMembers props))
  have hprinted : String.ofList ((Value.safeText (Component.livePlaceholder name (.ofMembers props))).printed
      m.objectText m.context.escape) = Component.livePlaceholder name (.ofMembers props) := by
    have hsafe : (Value.safeText (Component.livePlaceholder name (.ofMembers props))).isSafe = true := rfl
    rw [Value.printed, hsafe, Bool.or_true, Bool.true_or, if_pos rfl]
    exact String.ofList_toList
  have hemit : Answers (Eval.emit (.safeText (Component.livePlaceholder name (.ofMembers props)))) m () m' := by
    rw [← hprinted] at hwrite
    exact hwrite
  refine ⟨m', ?_, hwrote⟩
  unfold run
  exact hvalue.bind (hemit.atExpr _)

variable {head : List Char} {cs : List ((String × List (String × Json.Value)) × List Char)} {ss : List Stmt}

theorem Answers.forM_append {γ : Type} {f : γ → Eval Unit} {xs ys : List γ} (h : Answers (xs.forM f) m () m')
    (hy : Answers (ys.forM f) m' () m'') : Answers ((xs ++ ys).forM f) m () m'' := by
  have happend : (xs ++ ys).forM f = xs.forM f >>= fun _ => ys.forM f := List.forM_append
  rw [happend]
  exact h.bind hy

theorem stmtsDepth_text_append (text : List Char) (ss : List Stmt) :
    stmtsDepth (textStmts text ++ ss) = stmtsDepth ss := by
  unfold textStmts
  split
  · rfl
  · simp [stmtsDepth, Stmt.depth]

theorem Wrote.atTop {s : String} (h : Wrote m s m') (hm : AtTop m) : AtTop m' := by
  rw [AtTop, h.context]
  exact hm

theorem Wrote.discarding {s : String} (h : Wrote m s m') : m'.context.discarding = m.context.discarding := by
  rw [h.context]

theorem answers_inline (h : StmtsFor (Expr.Serves w) head cs ss) (hplaceable : ∀ c ∈ cs, Placeable w c.1.1)
    (hdata : w.data = .ofJson data) (hfree : data.member? placeholderFunction = none) (hm : AtTop m)
    (hkept : m.context.discarding = false) (hroom : stmtsDepth ss + 2 < room) :
    ∃ m', Answers (ss.forM fun s => run w (room + 1) s) m () m' ∧ Wrote m (callPage head cs) m' := by
  induction h generalizing m with
  | nil head => exact answers_text hkept head room
  | @cons head text name props e ss cs he h ih =>
    obtain ⟨hfirst, hplaceable⟩ := List.forall_mem_cons.1 hplaceable
    rw [stmtsDepth_text_append, stmtsDepth, Stmt.depth] at hroom
    obtain ⟨m₁, htext, hwrote₁⟩ := answers_text (w := w) hkept head room
    have hkept₁ := hwrote₁.discarding.trans hkept
    have hdepth : e.depth + 2 < room := by omega
    obtain ⟨m₂, hcall, hwrote₂⟩ := answers_emit he hfirst hdata hfree (hwrote₁.atTop hm) hkept₁ hdepth
    obtain ⟨m₃, hrest, hwrote₃⟩ := ih hplaceable (hwrote₂.atTop (hwrote₁.atTop hm)) (hwrote₂.discarding.trans hkept₁)
      (by omega)
    exact ⟨m₃, htext.forM_append (hcall.bind hrest), hwrote₁.trans (hwrote₂.trans hwrote₃)⟩

/-- What a template that names no parent writes is what its statements write. -/
theorem answers_runBody {name s : String} (h : Answers (runAll w room ss) m () m') (hwrote : Wrote m s m')
    (hname : m.context.template = name) (hparent : m.context.parent = none) :
    ∃ m'', Answers (runBody w (room + 1) ⟨name, ss⟩) m () m'' ∧ m''.context.out = m.context.out ++ s := by
  have hsame : ({ m with context := { m.context with template := name, parent := none } } : Machine) = m := by
    rw [← hname, ← hparent]
  have hparent' : m'.context.parent = none := by rw [hwrote.context, hparent]
  refine ⟨{ m' with context := { m'.context with template := m.context.template, parent := m.context.parent } }, ?_, ?_⟩
  · have hcontext (m : Machine) : Answers context m m.context m := rfl
    have hchange (f : Context → Context) (m : Machine) :
        Answers (change f) m () { m with context := f m.context } := rfl
    have hbegin := hchange (fun c => { c with template := name, parent := none }) m
    rw [hsame] at hbegin
    unfold runBody
    refine (hcontext m).bind (hbegin.bind (h.bind ((hcontext m').bind ?_)))
    rw [hparent']
    exact hchange _ m'
  · change m'.context.out = _
    rw [hwrote.context]

/-- The state that a render begins in. -/
def opening (name : String) (ss : List Stmt) (budget : Budget) : Machine :=
  { context := { scopes := [{ base := .data }], template := name, blocks := stacksOf name ss, loaded := [name] }
    budget }

theorem renderBody_eq (w : World) (name : String) (ss : List Stmt) (budget : Budget) : renderBody w name ss budget =
    ((runBody w (roomFor ss) ⟨name, ss⟩ (opening name ss budget)).1.map fun _ =>
      (runBody w (roomFor ss) ⟨name, ss⟩ (opening name ss budget)).2.context.out,
      (runBody w (roomFor ss) ⟨name, ss⟩ (opening name ss budget)).2) := rfl

theorem exists_room (ss : List Stmt) : ∃ room, roomFor ss = room + 3 ∧ stmtsDepth ss + 2 < room := by
  have hlarge : 5 < evaluatorRoom := by decide
  exact ⟨evaluatorRoom - 3 + stmtsDepth ss, by rw [roomFor]; omega, by omega⟩

/-- Text with calls in it renders to text with placeholders in it. -/
theorem renderBody_inline (h : StmtsFor (Expr.Serves w) head cs ss) (hplaceable : ∀ c ∈ cs, Placeable w c.1.1)
    (hdata : w.data = .ofJson data) (hfree : data.member? placeholderFunction = none) (name : String)
    (budget : Budget) : (renderBody w name ss budget).1 = .ok (callPage head cs) := by
  obtain ⟨room, hroom, hlt⟩ := exists_room ss
  obtain ⟨m, hall, hwrote⟩ := answers_inline (m := opening name ss budget) h hplaceable hdata hfree rfl rfl hlt
  have hrunAll : Answers (runAll w (room + 2) ss) (opening name ss budget) () m := hall
  obtain ⟨m', hbody, hout⟩ := answers_runBody hrunAll hwrote rfl rfl
  have hrun : runBody w (roomFor ss) ⟨name, ss⟩ (opening name ss budget) = (.ok (), m') := by
    rw [hroom]
    exact hbody
  have hempty : (opening name ss budget).context.out ++ callPage head cs = callPage head cs := String.empty_append
  rw [renderBody_eq, hrun, ← hempty, ← hout]
  rfl

end SecureLayout.Template
