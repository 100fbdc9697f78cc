import SecureLayout.Proofs.Template.Answering

/-!
Paths into data that may lead nowhere. Main statements: a path answers what is found at its end, also when that is
nothing, and fails where it takes a step from nothing, `Expr.Walks.finds` and `Expr.Walks.breaks`; a call with such a
path among its props fails the render, `renderBody_breaks`.
-/

namespace SecureLayout.Template

open Eval

variable {α β : Type} {w : World} {data v : Json.Value} {r r' : Option Json.Value} {e e' : Expr} {m m' : Machine}
  {room : Nat} {ss : List Step}

/-! ### Steps on data -/

/-- What a step finds in a value. -/
def Step.find? (v : Json.Value) : Step → Option Json.Value
  | member n => v.member? n
  | item k => v.item? k

/-- What steps find: perhaps nothing, but it does not get even that far where a step is taken from nothing. -/
def follow? : Option Json.Value → List Step → Option (Option Json.Value)
  | r, [] => some r
  | none, _ :: _ => none
  | some v, s :: ss => follow? (s.find? v) ss

theorem Step.find?_portable {u : Json.Value} {s : Step} (h : v.Portable) (hu : s.find? v = some u) : u.Portable := by
  cases s with
  | member n => exact h.member? hu
  | item k => exact h.item? hu

theorem follow?_portable (h : ∀ v ∈ r, v.Portable) (hr : follow? r ss = some r') : ∀ v ∈ r', v.Portable := by
  induction ss generalizing r with
  | nil =>
    obtain rfl : r = r' := Option.some.inj hr
    exact h
  | cons s ss ih =>
    cases r with
    | none => cases hr
    | some v => exact ih (fun u hu => Step.find?_portable (h v rfl) hu) hr

/-! ### Failing for want of a value -/

/-- The computation fails for want of a value, at a line of its template, and asks for no loop body. -/
def Misses (x : Eval α) (m : Machine) : Prop :=
  ∃ line m', x m = (.error { Error.undefinedValue with site := some ⟨m.context.template, line⟩ }, m') ∧
    m'.budget = m.budget

theorem Misses.bind {x : Eval α} {f : α → Eval β} (h : Misses x m) : Misses (x >>= f) m := by
  obtain ⟨line, m', hx, hbudget⟩ := h
  refine ⟨line, m', ?_, hbudget⟩
  rw [Evaluates.bind_apply, hx]
  rfl

theorem Answers.misses {x : Eval α} {f : α → Eval β} {a : α} {s : String} (h : Answers x m a m') (hwrote : Wrote m s m')
    (hf : Misses (f a) m') : Misses (x >>= f) m := by
  obtain ⟨line, m'', hx, hbudget⟩ := hf
  rw [hwrote.context] at hx
  refine ⟨line, m'', ?_, hbudget.trans hwrote.budget⟩
  rw [Evaluates.bind_apply, h]
  exact hx

theorem Wrote.refl (m : Machine) : Wrote m "" m :=
  ⟨by rw [String.append_empty], rfl⟩

theorem Misses.atExpr {x : Eval α} (h : Misses x m) (e : Expr) : Misses (atExpr e x) m := by
  obtain ⟨line, m', hx, hbudget⟩ := h
  refine ⟨line, m', ?_, hbudget⟩
  rw [Eval.atExpr, hx]
  rfl

theorem misses_atExpr {x : Eval α} (h : x m = (.error .undefinedValue, m)) (e : Expr) : Misses (atExpr e x) m := by
  refine ⟨e.lastLine, m, ?_, rfl⟩
  rw [Eval.atExpr, h]
  rfl

/-! ### Paths -/

/-- The expression answers what was found. -/
def Expr.Finds (w : World) (e : Expr) (r : Option Json.Value) : Prop :=
  ∀ (m : Machine) (room : Nat), AtTop m → e.depth < room → Answers (evalExpr w room e) m (found r) m

/-- The expression takes a step from nothing. -/
def Expr.Breaks (w : World) (e : Expr) : Prop :=
  ∀ (m : Machine) (room : Nat), AtTop m → e.depth < room → Misses (evalExpr w room e) m

theorem Expr.finds_var {n : String} (hdata : w.data = .ofJson data)
    (hname : (data.member? n).isSome ∨ builtin? n = none) (line : Nat) :
    (Expr.var line n).Finds w (data.member? n) := by
  intro m room hm hroom
  obtain ⟨room, rfl⟩ : ∃ k, room = k + 1 := ⟨room - 1, by omega⟩
  exact answers_var hdata hm hname line

namespace Expr

/-- A step from a value. -/
theorem Finds.attr (h : e.Finds w (some v)) (line : Nat) (n : String) : (Expr.attr line e n).Finds w (v.member? n) := by
  intro m room hm hroom
  rw [depth] at hroom
  obtain ⟨room, rfl⟩ : ∃ k, room = k + 1 := ⟨room - 1, by omega⟩
  exact (h m room hm (by omega)).attr line n

theorem Finds.item (h : e.Finds w (some v)) (line line' k : Nat) :
    (Expr.item line e (.literal line' (.int k))).Finds w (v.item? k) := by
  intro m room hm hroom
  rw [depth] at hroom
  obtain ⟨room, rfl⟩ : ∃ k, room = k + 1 := ⟨room - 1, by omega⟩
  exact (h m room hm (by omega)).item (by omega) line line' k

/-- A step from nothing. -/
theorem Finds.attr_breaks (h : e.Finds w none) (line : Nat) (n : String) : (Expr.attr line e n).Breaks w := by
  intro m room hm hroom
  rw [depth] at hroom
  obtain ⟨room, rfl⟩ : ∃ k, room = k + 1 := ⟨room - 1, by omega⟩
  have hnothing : Answers (evalExpr w room e) m (.undefined false) m := h m room hm (by omega)
  rw [evalExpr]
  refine misses_atExpr ?_ _
  rw [Evaluates.bind_apply, hnothing]
  rfl

theorem Finds.item_breaks (h : e.Finds w none) (line line' k : Nat) :
    (Expr.item line e (.literal line' (.int k))).Breaks w := by
  intro m room hm hroom
  rw [depth] at hroom
  obtain ⟨room, rfl⟩ : ∃ k, room = k + 1 := ⟨room - 1, by omega⟩
  have hnothing : Answers (evalExpr w room e) m (.undefined false) m := h m room hm (by omega)
  have hkey : Answers (evalExpr w room (.literal line' (.int k))) m (.int k) m :=
    answers_literal (by omega) line' (.int k) m
  rw [evalExpr]
  refine misses_atExpr ?_ _
  rw [Evaluates.bind_apply, hnothing]
  change (evalExpr w room (.literal line' (.int k)) >>= _) m = _
  rw [Evaluates.bind_apply, hkey]
  rfl

/-- A step from what breaks. -/
theorem Breaks.attr (h : e.Breaks w) (line : Nat) (n : String) : (Expr.attr line e n).Breaks w := by
  intro m room hm hroom
  rw [depth] at hroom
  obtain ⟨room, rfl⟩ : ∃ k, room = k + 1 := ⟨room - 1, by omega⟩
  rw [evalExpr]
  exact (h m room hm (by omega)).bind.atExpr _

theorem Breaks.item (h : e.Breaks w) (line : Nat) (key : Expr) : (Expr.item line e key).Breaks w := by
  intro m room hm hroom
  rw [depth] at hroom
  obtain ⟨room, rfl⟩ : ∃ k, room = k + 1 := ⟨room - 1, by omega⟩
  rw [evalExpr]
  exact (h m room hm (by omega)).bind.atExpr _

/-- Steps behind what breaks. -/
theorem Walks.breaks_from (h : e.Walks ss e') (he : e.Breaks w) : e'.Breaks w := by
  induction h with
  | nil e => exact he
  | member line h ih => exact ih (he.attr line _)
  | item line line' h ih => exact ih (he.item line _)

/-- A path answers what is found at its end, be it nothing. -/
theorem Walks.finds (h : e.Walks ss e') (he : e.Finds w r) (hr : follow? r ss = some r') : e'.Finds w r' := by
  induction h generalizing r with
  | nil e =>
    obtain rfl : r = r' := Option.some.inj hr
    exact he
  | member line h ih =>
    cases r with
    | none => cases hr
    | some v => exact ih (he.attr line _) hr
  | item line line' h ih =>
    cases r with
    | none => cases hr
    | some v => exact ih (he.item line line' _) hr

/-- A path that takes a step from nothing fails. -/
theorem Walks.breaks (h : e.Walks ss e') (he : e.Finds w r) (hr : follow? r ss = none) : e'.Breaks w := by
  induction h generalizing r with
  | nil e => cases hr
  | member line h ih =>
    cases r with
    | none => exact h.breaks_from (he.attr_breaks line _)
    | some v => exact ih (he.attr line _) hr
  | item line line' h ih =>
    cases r with
    | none => exact h.breaks_from (he.item_breaks line line' _)
    | some v => exact ih (he.item line line' _) hr

/-- What was found goes out; nothing goes out as null. -/
theorem Finds.serves (h : e.Finds w r) (hr : ∀ v ∈ r, v.Portable) : e.Serves w (r.getD .null) := by
  intro m room hm hroom
  refine ⟨found r, h m room hm hroom, ?_⟩
  cases r with
  | none => rfl
  | some v => exact Value.toJson_ofJson (hr v rfl)

/-- The expression goes out as a value, or breaks. -/
def Comes (w : World) (e : Expr) : Option Json.Value → Prop
  | some v => e.Serves w v
  | none => e.Breaks w

end Expr

/-! ### Calls -/

/-- An entry with such a value fails the map. -/
theorem misses_entries {props : List (String × Option Json.Value)} {es : List (Expr × Expr)}
    (h : List.Forall₂ (EntryFor (Expr.Comes w)) props es) (hnone : ∃ q ∈ props, q.2 = none) (hm : AtTop m)
    (hroom : pairsDepth es < room) : Misses (es.mapM fun (k, v) => do
        let k ← evalExpr w room k
        return (k, ← evalExpr w room v)) m := by
  induction h with
  | nil =>
    obtain ⟨q, hq, -⟩ := hnone
    exact absurd hq List.not_mem_nil
  | @cons q p props es hqp hrest ih =>
    obtain ⟨k, e⟩ := p
    obtain ⟨key, r⟩ := q
    obtain ⟨⟨line, hk⟩, he⟩ := hqp
    obtain rfl : k = _ := hk
    simp only [pairsDepth] at hroom
    have hdepth : e.depth < room := by omega
    have hkey : Answers (evalExpr w room (.literal line (.text key))) m (.plainText key) m :=
      answers_literal (by omega) line (.text key) m
    rw [List.mapM_cons]
    cases r with
    | none =>
      have hbreaks : e.Breaks w := he
      exact (hkey.misses (.refl m) (hbreaks m room hm hdepth).bind).bind
    | some v =>
      have hserves : e.Serves w v := he
      obtain ⟨x, hvalue, -⟩ := hserves m room hm hdepth
      have hentry : Answers (pure (Value.plainText key, x)) m (Value.plainText key, x) m := answers_pure _ m
      have hmore : ∃ q ∈ props, q.2 = none := by
        obtain ⟨q, hq, hnone⟩ := hnone
        rcases List.mem_cons.1 hq with rfl | hq
        · cases hnone
        · exact ⟨q, hq, hnone⟩
      exact (hkey.bind (hvalue.bind hentry)).misses (.refl m) (ih hmore (by omega)).bind

/-- Two arguments by position, the second of which breaks. -/
theorem misses_args {e₁ e₂ : Expr} {v₁ : Value} (h₁ : Answers (evalExpr w room e₁) m v₁ m)
    (h₂ : Misses (evalExpr w room e₂) m) :
    Misses (evalArgs w (room + 1) [.positional e₁, .positional e₂] none) m := by
  rw [evalArgs]
  refine Misses.bind ?_
  rw [List.mapM_cons]
  refine (h₁.bind (answers_pure [v₁] m)).misses (.refl m) (Misses.bind ?_)
  rw [List.mapM_cons]
  exact h₂.bind.bind

theorem Expr.Calls.breaks {name : String} {props : List (String × Option Json.Value)}
    (h : e.Calls (Expr.Comes w) name props) (hnone : ∃ q ∈ props, q.2 = none) (hm : AtTop m)
    (hroom : e.depth + 2 < room) : Misses (evalExpr w room e) m := by
  obtain ⟨l, l₁, l₂, l₃, es, rfl, hes⟩ := h
  simp only [Expr.depth, argsDepth, Arg.depth] at hroom
  obtain ⟨room, rfl⟩ : ∃ k, room = k + 4 := ⟨room - 4, by omega⟩
  have hdepth : pairsDepth es < room := by omega
  have hname : Answers (evalExpr w (room + 1) (.literal l₂ (.text name))) m (.plainText name) m :=
    answers_literal (by omega) l₂ (.text name) m
  have hmap : Misses (evalExpr w (room + 1) (.map l₃ es)) m := by
    rw [evalExpr]
    exact (misses_entries hes hnone hm hdepth).bind.atExpr _
  rw [evalExpr]
  refine Misses.atExpr ?_ _
  rw [evalCall]
  exact (misses_args hname hmap).bind

/-- A call without such a prop carries values. -/
theorem Expr.Calls.serves {name : String} {props : List (String × Option Json.Value)}
    (h : e.Calls (Expr.Comes w) name props) (hsome : ¬∃ q ∈ props, q.2 = none) :
    e.Calls (Expr.Serves w) name (props.map fun q => (q.1, q.2.getD .null)) := by
  obtain ⟨l, l₁, l₂, l₃, es, rfl, hes⟩ := h
  refine ⟨l, l₁, l₂, l₃, es, rfl, ?_⟩
  induction hes with
  | nil => exact .nil
  | @cons q p props es hqp hes ih =>
    obtain ⟨key, r⟩ := q
    rw [List.exists_mem_cons_iff, not_or] at hsome
    refine .cons ⟨hqp.1, ?_⟩ (ih hsome.2)
    cases r with
    | none => exact absurd rfl hsome.1
    | some v => exact hqp.2

/-! ### Text and calls -/

theorem misses_emit {name : String} {props : List (String × Option Json.Value)}
    (h : e.Calls (Expr.Comes w) name props) (hnone : ∃ q ∈ props, q.2 = none) (hm : AtTop m)
    (hroom : e.depth + 2 < room) : Misses (run w (room + 1) (.emit e)) m := by
  have hvalue := h.breaks hnone hm hroom
  obtain ⟨l, l₁, l₂, l₃, es, rfl, hes⟩ := h
  unfold run
  exact hvalue.bind

variable {head : List Char} {cs : List ((String × List (String × Option Json.Value)) × List Char)} {stmts : List Stmt}

theorem misses_inline (h : StmtsFor (Expr.Comes w) head cs stmts) (hplaceable : ∀ c ∈ cs, Placeable w c.1.1)
    (hnone : ∃ c ∈ cs, ∃ q ∈ c.1.2, q.2 = none) (hdata : w.data = .ofJson data)
    (hfree : data.member? placeholderFunction = none) (hm : AtTop m) (hkept : m.context.discarding = false)
    (hroom : stmtsDepth stmts + 2 < room) : Misses (stmts.forM fun s => run w (room + 1) s) m := by
  induction h generalizing m with
  | nil head =>
    obtain ⟨c, hc, -⟩ := hnone
    exact absurd hc List.not_mem_nil
  | @cons head text name props e stmts cs he h ih =>
    obtain ⟨hfirst, hplaceable⟩ := List.forall_mem_cons.1 hplaceable
    rw [stmtsDepth_text_append, stmtsDepth, Stmt.depth] at hroom
    obtain ⟨m₁, htext, hwrote₁⟩ := answers_text (w := w) hkept head room
    have hkept₁ := hwrote₁.discarding.trans hkept
    have hdepth : e.depth + 2 < room := by omega
    have happend : (textStmts head ++ .emit e :: stmts).forM (fun s => run w (room + 1) s) =
        (textStmts head).forM (fun s => run w (room + 1) s) >>= fun _ => (.emit e :: stmts).forM fun s =>
          run w (room + 1) s := List.forM_append
    rw [happend]
    refine htext.misses hwrote₁ ?_
    change Misses (run w (room + 1) (.emit e) >>= fun _ => stmts.forM fun s => run w (room + 1) s) m₁
    -- The first call that breaks ends the render.
    by_cases hbroken : ∃ q ∈ props, q.2 = none
    · exact (misses_emit he hbroken (hwrote₁.atTop hm) hdepth).bind
    · have hm₁ := hwrote₁.atTop hm
      obtain ⟨m₂, hcall, hwrote₂⟩ := answers_emit (he.serves hbroken) hfirst hdata hfree hm₁ hkept₁ hdepth
      have hmore : ∃ c ∈ cs, ∃ q ∈ c.1.2, q.2 = none := ((List.exists_mem_cons_iff _ _ _).1 hnone).resolve_left hbroken
      exact hcall.misses hwrote₂
        (ih hplaceable hmore (hwrote₂.atTop hm₁) (hwrote₂.discarding.trans hkept₁) (by omega))

/-- A call with such a prop fails the render. -/
theorem renderBody_breaks (h : StmtsFor (Expr.Comes w) head cs stmts) (hplaceable : ∀ c ∈ cs, Placeable w c.1.1)
    (hnone : ∃ c ∈ cs, ∃ q ∈ c.1.2, q.2 = none) (hdata : w.data = .ofJson data)
    (hfree : data.member? placeholderFunction = none) (name : String) (budget : Budget) : ∃ line,
      (renderBody w name stmts budget).1 = .error { Error.undefinedValue with site := some ⟨name, line⟩ } ∧
        (renderBody w name stmts budget).2.budget = budget := by
  obtain ⟨room, hroom, hlt⟩ := exists_room stmts
  obtain ⟨line, m, hall, hbudget⟩ :=
    misses_inline (m := opening name stmts budget) h hplaceable hnone hdata hfree rfl rfl hlt
  have hrunAll : runAll w (room + 2) stmts (opening name stmts budget) = _ := hall
  have hbody : runBody w (roomFor stmts) ⟨name, stmts⟩ (opening name stmts budget) =
      (.error { Error.undefinedValue with site := some ⟨name, line⟩ }, m) := by
    rw [hroom]
    unfold runBody
    change (runAll w (room + 2) stmts >>= _) (opening name stmts budget) = _
    rw [Evaluates.bind_apply, hrunAll]
    rfl
  exact ⟨line, by rw [renderBody_eq, hbody]; rfl, by rw [renderBody_eq, hbody]; exact hbudget⟩

end SecureLayout.Template
