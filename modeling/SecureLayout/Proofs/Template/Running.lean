import SecureLayout.Proofs.Template.Evaluating

/-!
Statements keep the count of loop bodies. Main statement: so does the evaluator, within any room.
-/

namespace SecureLayout.Template

open Eval

namespace Evaluates

variable {w : World} {l : Limits} {room : Nat}

/-! ### Blocks -/

theorem emptyScope : ({} : Scope).Guarded :=
  ⟨fun _ he => absurd he List.not_mem_nil, fun _ he => absurd he List.not_mem_nil,
    fun _ hl => absurd hl (Option.not_mem_none _)⟩

theorem block_succ (h : Evaluates w l room) (name : String) :
    Sound l (fun _ => True) (callBlock w (room + 1) name) := by
  have hcurrent : ∀ b, Sound l (fun _ => True) (change fun c => { c with currentBlock := b }) :=
    fun b => .change fun c hc => ⟨hc.scopes, hc.blocks, hc.parent⟩
  unfold callBlock
  apply Sound.context.bind
  intro c hc
  split
  · exact .throw
  · next body hbody =>
    obtain ⟨stack, hstack, hbody⟩ := Option.bind_eq_some_iff.1 hbody
    have hmetered := hc.blocks _ (Entries.mem_of_get? hstack) body (List.mem_of_getElem? hbody)
    apply Sound.context.bind
    intro d _
    exact (hcurrent _).after ((Sound.inScope emptyScope (h.body body hmetered)).after (hcurrent _))

theorem setCurrent_guarded {c : Context} {name : String} {b : BlockStack} {n : Nat} (hc : c.Guarded)
    (hb : ∀ x ∈ b.bodies, x.Metered) : (c.setCurrent name b n).Guarded := by
  refine ⟨hc.scopes, ?_, hc.parent⟩
  intro e he
  rcases Entries.mem_put he with rfl | he
  · exact hb
  · exact hc.blocks e he

theorem super_succ (h : Evaluates w l room) : Sound l (fun _ => True) (callSuper w (room + 1)) := by
  unfold callSuper
  apply Sound.context.bind
  intro c _
  split
  · exact .throw
  · next name _ =>
    apply Sound.context.bind
    intro d hd
    split
    · exact .throw
    · next b hb =>
      have hbodies := hd.blocks _ (Entries.mem_of_get? hb)
      split
      · exact .throw
      · next body hbody =>
        have hbody := hbodies body (List.mem_of_getElem? hbody)
        have hcurrent : ∀ n, Sound l (fun _ => True) (change fun c => c.setCurrent name b n) :=
          fun n => .change fun c hc => setCurrent_guarded hc hbodies
        exact (hcurrent _).after ((Sound.inScope emptyScope (h.body body hbody)).wrapping.after (hcurrent _))

theorem place_succ (h : Evaluates w l room) (name : String) :
    Sound l (fun _ => True) (placeBlock w (room + 1) name) := by
  unfold placeBlock
  apply Sound.context.bind
  intro c _
  split
  · exact h.block name
  · exact .pure trivial

/-! ### Loops -/

theorem again_succ (h : Evaluates w l room) (v : Value) (hv : v.Tickless) :
    Sound l (fun _ => True) (loopAgain w (room + 1) v) := by
  unfold loopAgain
  apply Sound.get (fun _ _ => rfl)
  intro m hm
  split
  · exact .throw
  · next s hs =>
    obtain ⟨scope, hscope, hs⟩ := List.exists_of_findSome?_eq_some hs
    split
    · exact .throw
    · next loop hloop => exact h.loop loop v ((hm.context.scopes scope hscope).again s hs loop hloop) hv

theorem forItems {assign : Value → Eval Unit} {body : Eval Unit} {ref : Nat}
    (hassign : ∀ v, v.Tickless → Sound l (fun _ => True) (assign v))
    (hbody : Sound l (fun _ => True) (enterBody >>= fun _ => body)) {i : Nat} {previous : Option Value} {vs : List Value}
    (hp : ∀ v ∈ previous, v.Tickless) (hvs : ∀ v ∈ vs, v.Tickless) :
    Sound l (fun _ => True) (forItems assign body ref i previous vs) := by
  induction vs generalizing i previous with
  | nil => exact .pure trivial
  | cons v vs ih =>
    obtain ⟨hv, hvs⟩ := List.forall_mem_cons.1 hvs
    have hrest : Sound l (fun _ => True) (Template.forItems assign body ref (i + 1) (some v) vs) :=
      ih (by rintro x ⟨⟩; exact hv) hvs
    have hloop := hbody.after hrest
    rw [bind_assoc] at hloop
    have hset : Sound l (fun _ => True) (setLoop ref i previous vs.head?) :=
      .setLoop hp fun x hx => hvs x (List.mem_of_head? hx)
    exact hset.after ((hassign v hv).after hloop)

theorem loop_succ (h : Evaluates w l room) (loop : Loop) (v : Value) (hloop : loop.Metered) (hv : v.Tickless) :
    Sound l (fun _ => True) (runLoop w (room + 1) loop v) := by
  obtain ⟨t, r, hbody, htick, hr⟩ := hloop.body
  unfold runLoop
  apply Sound.atExpr
  apply Sound.guard
  intro hroom
  apply (Sound.iterate hv).bind
  intro items hitems
  apply Sound.get (fun _ _ => rfl)
  intro m _
  apply (Sound.alloc (.loop (by rintro _ ⟨⟩) (by rintro _ ⟨⟩))).bind
  intro ref _
  apply Sound.inScope
  · refine ⟨emptyScope.names, emptyScope.values, ?_⟩
    rintro s ⟨⟩ again hagain
    dsimp only at hagain
    split at hagain
    · cases hagain
      exact hloop
    · cases hagain
  · rw [hbody]
    exact forItems (fun x hx => h.assign loop.target x hloop.target hx)
      (h.entered t r htick hr (Nat.not_lt.1 hroom)) (by rintro _ ⟨⟩) hitems

theorem kept_succ (h : Evaluates w l room) (loop : Loop) (test : Expr) (v : Value) (hloop : loop.Metered)
    (htest : tickFunction ∉ test.names) (hv : v.Tickless) :
    Sound l Value.Tickless (keptItems w (room + 1) loop test v) := by
  unfold keptItems
  apply Sound.atExpr
  apply (Sound.iterate hv).bind
  intro items hitems
  apply Sound.inScope emptyScope
  apply (Sound.filterM fun x hx => ?_).bind
  · intro vs hvs
    exact .pure (.list fun x hx => hitems x (hvs hx))
  · apply (h.assign loop.target x hloop.target (hitems x hx)).after
    apply (h.expr test htest).bind
    intro t _
    exact truth.atExpr

theorem assign_succ (h : Evaluates w l room) (t : Target) (v : Value) (ht : tickFunction ∉ t.names) (hv : v.Tickless) :
    Sound l (fun _ => True) (Template.assign w (room + 1) t v) := by
  cases t with
  | name line n =>
    unfold Template.assign
    exact .store (fun heq => ht (heq ▸ List.mem_singleton.2 rfl)) hv
  | attr line e n =>
    simp only [Target.names, List.mem_cons, not_or] at ht
    unfold Template.assign
    apply (h.expr e ht.2).bind
    intro x _
    exact (Sound.setAttr hv).atExpr
  | list line ts =>
    have hts : ∀ t ∈ ts, tickFunction ∉ t.names := by
      rw [Target.names, targetsNames_eq] at ht
      exact fun t hmem hn => ht (List.mem_flatMap.2 ⟨t, hmem, hn⟩)
    unfold Template.assign
    apply (Sound.unpack hv).atLine.bind
    intro vs hvs
    apply Sound.forM
    intro x hx
    obtain ⟨htarget, hvalue⟩ := List.of_mem_zip hx
    exact h.assign x.1 x.2 (hts _ htarget) (hvs _ hvalue)

/-! ### Templates -/

theorem withCaptured_guarded {captured : Option Nat} {ss : List Scope} (h : ∀ s ∈ ss, s.Guarded) :
    ∀ s ∈ withCaptured captured ss, s.Guarded := by
  cases ss with
  | nil => exact h
  | cons top r =>
    obtain ⟨htop, hr⟩ := List.forall_mem_cons.1 h
    exact List.forall_mem_cons.2 ⟨⟨htop.names, htop.values, htop.again⟩, hr⟩

theorem include_succ (h : Evaluates w l room) (b : Body) (hb : b.Metered) :
    Sound l (fun _ => True) (includeTemplate w (room + 1) b) := by
  unfold includeTemplate
  apply Sound.get (fun _ _ => rfl)
  intro m _
  apply Sound.guard
  intro _
  apply Sound.context.bind
  intro c hc
  have henter : Sound l (fun _ => True) (change fun c => { c with
      escape := true
      outerDepth := c.outerDepth + includeCost
      blocks := stacksOf b.template b.stmts
      scopes := withCaptured none c.scopes }) :=
    .change fun d hd => ⟨withCaptured_guarded hd.scopes, stacksOf_metered hb, hd.parent⟩
  apply henter.after
  apply (h.body b hb).wrapping.after
  exact .change fun d hd => ⟨withCaptured_guarded hd.scopes, hc.blocks, hd.parent⟩

theorem includeNamed_succ (h : Evaluates w l room) (hw : w.Guarded) (v : Value) (ignoreMissing : Bool) :
    Sound l (fun _ => True) (Template.includeNamed w (room + 1) v ignoreMissing) := by
  unfold Template.includeNamed
  apply (Sound.lift (Gives.after fun vs => gives_findTemplate hw vs)).bind
  intro r hr
  split
  · next b => exact h.include_ b (hr b rfl)
  · split
    · exact .pure trivial
    · exact .throw

theorem body_succ (h : Evaluates w l room) (b : Body) (hb : b.Metered) :
    Sound l (fun _ => True) (runBody w (room + 1) b) := by
  unfold runBody
  apply Sound.context.bind
  intro c hc
  have henter : Sound l (fun _ => True) (change fun c => { c with template := b.template, parent := none }) :=
    .change fun d hd => ⟨hd.scopes, hd.blocks, by rintro _ ⟨⟩⟩
  have hleave : Sound l (fun _ => True) (change fun d => { d with template := c.template, parent := c.parent }) :=
    .change fun d hd => ⟨hd.scopes, hd.blocks, hc.parent⟩
  apply henter.after
  apply (h.all b.stmts hb).after
  apply Sound.context.bind
  intro d hd
  split
  · exact hleave
  · next parent hparent =>
    have hdrop : Sound l (fun _ => True) (change fun d => { d with discarding := c.discarding }) :=
      .change fun d hd => ⟨hd.scopes, hd.blocks, hd.parent⟩
    exact hdrop.after ((h.body parent (hd.parent parent hparent)).after hleave)

/-! ### Statements -/

theorem all_succ (h : Evaluates w l room) (ss : List Stmt) (hss : ∀ s ∈ ss, s.Metered) :
    Sound l (fun _ => True) (runAll w (room + 1) ss) := by
  unfold runAll
  exact .forM fun s hs => h.run s (hss s hs)

/-! ### Counting -/

theorem bind_apply {α β : Type} (x : Eval α) (f : α → Eval β) (m : Machine) :
    (x >>= f) m = (ExceptT.bindCont f (x m).1 : StateM Machine (Except Error β)) (x m).2 :=
  rfl

theorem get_apply {α : Type} (f : Machine → Eval α) (m : Machine) : (get >>= f) m = f m m :=
  rfl

theorem enter_apply (x : Eval Unit) (m : Machine) :
    (enterBody >>= fun _ => x) m = x { m with entered := m.entered + 1 } :=
  rfl

theorem call_tick {m : Machine} {n : Nat} (hw : w.Guarded) (hm : m.Guarded) :
    evalCall w (room + 2) (.var n tickFunction) [] none m = (tick >>= fun _ => pure Value.none) m := by
  have hargs : evalArgs w (room + 1) [] none = (pure ⟨[], []⟩ : Eval Args) := by
    unfold evalArgs
    rfl
  have hcallee : callee w tickFunction m = (pure (.function .tick) : Eval Value) m := by
    unfold callee
    rw [get_apply, hm.lookup?_tick hw]
  unfold evalCall
  rw [hargs]
  change (callee w tickFunction >>= fun v => callValue w (room + 1) v ⟨[], []⟩) m = _
  rw [bind_apply, hcallee, ← bind_apply]
  change callValue w (room + 1) (.function .tick) ⟨[], []⟩ m = _
  unfold callValue
  rfl

theorem isTick_eq {t : Stmt} (h : t.IsTick) :
    ∃ a b c d, t = .set a (.name b "__lg_tick") (.call c (.var d tickFunction) []) := by
  cases t with
  | set a target e =>
    unfold Stmt.IsTick at h
    split at h
    · next b n c d f heq =>
      cases heq
      obtain ⟨rfl, rfl⟩ := h
      exact ⟨_, _, _, _, rfl⟩
    · exact h.elim
  | _ => exact h.elim

/-- The statement at the beginning of a loop body asks the budget. -/
theorem run_tick {a b c d : Nat} {m : Machine} (hw : w.Guarded) (hm : m.Guarded) :
    Template.run w (room + 4) (.set a (.name b "__lg_tick") (.call c (.var d tickFunction) [])) m =
      (atExpr (.call c (.var d tickFunction) []) (tick >>= fun _ => pure Value.none) >>= store "__lg_tick") m := by
  have heval : evalExpr w (room + 3) (.call c (.var d tickFunction) []) m =
      atExpr (.call c (.var d tickFunction) []) (tick >>= fun _ => pure Value.none) m := by
    rw [evalExpr]
    unfold atExpr
    rw [call_tick hw hm]
  have hassign : (fun v => Template.assign w (room + 3) (.name b "__lg_tick") v) = store "__lg_tick" := by
    funext v
    unfold Template.assign
    rfl
  unfold Template.run
  dsimp only
  rw [hassign, bind_apply, bind_apply, heval]

/-- A loop body with the budget asked on its way in. -/
theorem enter_asking {e : Expr} {k : Value → Eval Unit} {m : Machine} :
    (enterBody >>= fun _ => atExpr e (tick >>= fun _ => pure Value.none) >>= k) m =
      if m.budget.max < m.budget.count + 1 then
        (.error (m.budget.exceeded.atSite ⟨m.context.template, e.lastLine⟩),
          { m with entered := m.entered + 1, budget := { m.budget with count := m.budget.count + 1, tripped := true } })
      else k .none { m with entered := m.entered + 1, budget := { m.budget with count := m.budget.count + 1 } } := by
  have htick : (tick >>= fun _ => pure Value.none) { m with entered := m.entered + 1 } =
      if m.budget.max < m.budget.count + 1 then
        (.error m.budget.exceeded,
          { m with entered := m.entered + 1, budget := { m.budget with count := m.budget.count + 1, tripped := true } })
      else (.ok .none, { m with entered := m.entered + 1, budget := { m.budget with count := m.budget.count + 1 } }) := by
    rw [bind_apply]
    unfold tick Budget.tick
    dsimp only
    split
    · rfl
    · rfl
  rw [enter_apply, bind_apply]
  unfold atExpr
  rw [htick]
  by_cases hover : m.budget.max < m.budget.count + 1
  · rw [if_pos hover, if_pos hover]
    rfl
  · rw [if_neg hover, if_neg hover]
    rfl

/-- A body is entered, and counted if the budget grants it. -/
theorem counted {e : Expr} {k : Value → Eval Unit} (hk : Sound l (fun _ => True) (k .none)) :
    Sound l (fun _ => True) (enterBody >>= fun _ => atExpr e (tick >>= fun _ => pure Value.none) >>= k) := by
  constructor
  intro m hm hw
  have hmax := hw.max
  have hcount := hw.count
  have hle := hw.granted
  have hlimits := l.le
  rw [enter_asking, enter_asking]
  by_cases hroom : m.entered < l.low
  · rw [if_neg (by omega), if_neg (by change ¬ l.high < m.budget.count + 1; omega)]
    exact hk.run { m with entered := m.entered + 1, budget := { m.budget with count := m.budget.count + 1 } }
      ⟨hm.context, hm.heap⟩ ⟨hmax, by rw [hcount], hroom, hw.tripped, hw.written⟩
  · rw [if_pos (by omega)]
    exact .beyond ⟨hmax, by rw [hcount], by change m.entered + 1 = _; omega, rfl, hw.written⟩

theorem entered_succ (h : Evaluates w l room) (hw : w.Guarded) (t : Stmt) (r : List Stmt) (ht : t.IsTick)
    (hr : ∀ x ∈ r, x.Metered) (hroom : tickRoom ≤ room + 1) :
    Sound l (fun _ => True) (enterBody >>= fun _ => runAll w (room + 1) (t :: r)) := by
  obtain ⟨room, rfl⟩ := Nat.exists_eq_add_of_le' (Nat.le_of_succ_le_succ hroom)
  obtain ⟨a, b, c, d, rfl⟩ := isTick_eq ht
  have hrest : Sound l (fun _ => True) (store "__lg_tick" .none >>= fun _ => r.forM fun s => Template.run w (room + 4) s) :=
    (Sound.store (by decide) .none).after (.forM fun s hs => h.run s (hr s hs))
  have hcounted := counted (e := .call c (.var d tickFunction) []) (k := fun v =>
    store "__lg_tick" v >>= fun _ => r.forM fun s => Template.run w (room + 4) s) hrest
  have hsame : ∀ m : Machine, m.Guarded → (enterBody >>= fun _ => runAll w (room + 4 + 1)
      (.set a (.name b "__lg_tick") (.call c (.var d tickFunction) []) :: r)) m =
      (enterBody >>= fun _ => atExpr (.call c (.var d tickFunction) []) (tick >>= fun _ => pure Value.none) >>= fun v =>
        store "__lg_tick" v >>= fun _ => r.forM fun s => Template.run w (room + 4) s) m := by
    intro m hm
    have hentered : ({ m with entered := m.entered + 1 } : Machine).Guarded := ⟨hm.context, hm.heap⟩
    unfold runAll
    rw [enter_apply, enter_apply]
    change (Template.run w (room + 4) _ >>= fun _ => r.forM fun s => Template.run w (room + 4) s) _ = _
    rw [bind_apply, run_tick hw hentered, ← bind_apply, bind_assoc]
  constructor
  intro m hm hwithin
  rw [hsame m hm, hsame (m.raised l.high) ⟨hm.context, hm.heap⟩]
  exact hcounted.run m hm hwithin

/-- What an output statement prints. -/
theorem output_succ (h : Evaluates w l room) (e : Expr) (he : tickFunction ∉ e.names) :
    Sound l (fun _ => True) (Template.run w (room + 1) (.emit e)) := by
  unfold Template.run
  dsimp only
  split
  · exact h.super.atExpr
  · next x =>
    simp only [Expr.names, argsNames, Arg.names, List.mem_append, not_or] at he
    apply (h.expr x he.2.1).bind
    intro v hv
    exact (h.again v hv).atExpr
  · exact (h.place _).atExpr
  · apply (h.expr e he).bind
    intro v _
    exact Sound.emit.atExpr

theorem iteration_succ (h : Evaluates w l room) (line : Nat) (loop : Loop) (hloop : loop.Metered) :
    Sound l (fun _ => True) (Template.run w (room + 1) (.forLoop line loop)) := by
  have hrun : ∀ v : Value, v.Tickless → Sound l (fun _ => True) (runLoop w room loop v >>= fun _ =>
      if loop.other.isEmpty then pure () else do
        let items ← ask fun m => m.iterate v
        if items.isEmpty then runAll w room loop.other) := by
    intro v hv
    apply (h.loop loop v hloop hv).after
    split
    · exact .pure trivial
    · apply (Sound.iterate hv).bind
      intro items _
      split
      · exact h.all _ hloop.other
      · exact .pure trivial
  unfold Template.run
  apply (h.expr _ hloop.subject).bind
  intro v hv
  cases hkeep : loop.keep with
  | none => exact (Sound.pure hv).bind hrun
  | some test => exact (h.kept loop test v hloop (hloop.keep test hkeep) hv).bind hrun

/-- A template that is imported runs in a scope of its own, and prints nothing. -/
theorem imported_succ (h : Evaluates w l room) (line : Nat) (e : Expr) (he : tickFunction ∉ e.names) :
    Sound l (fun _ => True) (capture do
      atLine line (push {})
      let v ← evalExpr w room e
      atLine line (Template.includeNamed w room v false)) := by
  apply Sound.capture
  apply (Sound.push emptyScope).atLine.after
  apply (h.expr e he).bind
  intro v hv
  exact (h.includeNamed v false hv).atLine

theorem run_succ (h : Evaluates w l room) (hw : w.Guarded) (s : Stmt) (hs : s.Metered) :
    Sound l (fun _ => True) (Template.run w (room + 1) s) := by
  have hhead := hs.head
  have hinner := hs.inner
  cases s with
  | text s =>
    unfold Template.run
    exact .write
  | emit e => exact h.output_succ e hhead
  | forLoop line loop => exact h.iteration_succ line loop hs.loop
  | ifThen test yes no =>
    unfold Template.run
    apply (h.expr test hhead).bind
    intro v _
    apply truth.atExpr.bind
    intro t _
    split
    · exact h.all yes fun x hx => hinner x (List.mem_append_left _ hx)
    · exact h.all no fun x hx => hinner x (List.mem_append_right _ hx)
  | withValues line bindings body =>
    have hnames : ∀ b ∈ bindings, tickFunction ∉ b.1.names ++ b.2.names :=
      fun b hb hmem => hhead (List.mem_flatMap.2 ⟨b, hb, hmem⟩)
    unfold Template.run
    apply (Sound.push emptyScope).atLine.after
    refine (Sound.forM fun b hb => ?_).after ((h.all body hinner).after .pop)
    have hb := hnames b hb
    rw [List.mem_append, not_or] at hb
    apply (h.expr b.2 hb.2).bind
    intro v hv
    exact h.assign b.1 v hb.1 hv
  | set line target e =>
    simp only [Stmt.headNames, List.mem_append, not_or] at hhead
    unfold Template.run
    apply (h.expr e hhead.2).bind
    intro v hv
    exact h.assign target v hhead.1 hv
  | setBlock line target filter body =>
    simp only [Stmt.headNames, List.mem_append, not_or] at hhead
    unfold Template.run
    apply (h.all body hinner).capture.bind
    intro s _
    apply Sound.captured.bind
    intro v hv
    cases filter with
    | none => exact h.assign target v hhead.1 hv
    | some f =>
      apply (h.filter f v hhead.2 hv).bind
      intro x hx
      exact h.assign target x hhead.1 hx
  | autoescape mode body =>
    have hescape : ∀ b, Sound l (fun _ => True) (change fun c => { c with escape := b }) :=
      fun b => .change fun c hc => ⟨hc.scopes, hc.blocks, hc.parent⟩
    unfold Template.run
    apply (h.expr mode hhead).bind
    intro v _
    apply (Sound.lift (p := fun _ => True) ⟨fun _ _ => trivial⟩).atExpr.bind
    intro escape _
    apply Sound.context.bind
    intro c _
    exact (hescape _).after ((h.all body hinner).after (hescape _))
  | filterBlock line filter body =>
    unfold Template.run
    apply (h.all body hinner).capture.bind
    intro s _
    apply Sound.captured.bind
    intro v hv
    apply (h.filter filter v hhead hv).bind
    intro x _
    exact Sound.emit.atExpr
  | block line name body =>
    unfold Template.run
    exact (h.place name).atLine
  | inherit line e =>
    unfold Template.run
    apply (h.expr e hhead).bind
    intro v _
    exact (Sound.inherit_ hw).atExpr
  | includeFile line e ignoreMissing =>
    unfold Template.run
    apply (h.expr e hhead).bind
    intro v hv
    exact (h.includeNamed v ignoreMissing hv).atExpr
  | importAs line e target =>
    simp only [Stmt.headNames, List.mem_append, not_or] at hhead
    unfold Template.run
    apply (h.imported_succ line e hhead.1).after
    apply Sound.context.bind
    intro c hc
    apply Sound.pop.after
    apply h.assign target _ hhead.2
    apply Value.tickless_ofEntries
    cases hs : c.scopes with
    | nil => exact fun e he => absurd he List.not_mem_nil
    | cons top r => exact (hc.scopes top (hs ▸ List.mem_cons_self)).values
  | importNames line e names =>
    simp only [Stmt.headNames, List.mem_append, not_or] at hhead
    have hnames : ∀ x ∈ names, tickFunction ∉ x.1 :: x.2.toList :=
      fun x hx hmem => hhead.2 (List.mem_flatMap.2 ⟨x, hx, hmem⟩)
    unfold Template.run
    apply (h.imported_succ line e hhead.1).after
    apply Sound.get (fun _ _ => rfl)
    intro m hm
    apply Sound.pop.after
    apply Sound.forM
    intro x hx
    obtain ⟨hname, hvalue⟩ := List.of_mem_zip (List.mem_reverse.1 hx)
    obtain ⟨y, hy, heq⟩ := List.mem_map.1 hvalue
    apply Sound.store
    · intro hn
      apply hnames _ hname
      cases has : x.1.2 with
      | none =>
        rw [has] at hn
        exact hn ▸ List.mem_cons_self
      | some as =>
        rw [has] at hn
        exact hn ▸ List.mem_cons_of_mem _ (List.mem_singleton.2 rfl)
    · rw [← heq]
      refine Value.tickless_getD (fun v hv => (hm.lookup? hw v hv).other fun hn => ?_) (.undefined _)
      exact hnames y hy (hn ▸ List.mem_cons_self)
  | define line m =>
    unfold Template.run
    apply (Sound.makeMacro hw hs.macro_).bind
    intro v hv
    refine .store ?_ hv
    intro hn
    cases m with
    | mk line name params defaults body => exact hhead (hn ▸ List.mem_cons_self)
  | callBlock line call caller =>
    simp only [Stmt.headNames, List.mem_append, not_or] at hhead
    unfold Template.run
    dsimp only
    split
    · next f args =>
      simp only [Expr.names, List.mem_append, not_or] at hhead
      apply (h.call f args (some caller) hhead.1.1 hhead.1.2 (by rintro _ ⟨⟩; exact hs.caller)).atExpr.bind
      intro v _
      exact Sound.emit.atExpr
    · exact .pure trivial
  | run line call =>
    unfold Template.run
    exact (h.expr call hhead).bind fun _ _ => .pure trivial

/-! ### Any room -/

theorem zero : Evaluates w l 0 where
  expr _ _ := by unfold evalExpr; exact .throw
  chain _ _ _ _ := by unfold evalChain; exact .throw
  bound _ _ := by unfold evalBound; exact .throw
  filter _ _ _ _ := by unfold evalFilter; exact .throw
  args _ _ _ _ := by unfold evalArgs; exact .throw
  call _ _ _ _ _ _ := by unfold evalCall; exact .throw
  method _ _ _ _ _ := by unfold callMethod; exact .throw
  value _ _ _ _ := by unfold callValue; exact .throw
  macro_ _ _ _ _ := by unfold callMacro; exact .throw
  block _ := by unfold callBlock; exact .throw
  super := by unfold callSuper; exact .throw
  again _ _ := by unfold loopAgain; exact .throw
  loop _ _ _ _ := by unfold runLoop; exact .throw
  entered _ _ _ _ hroom := absurd hroom (by decide)
  kept _ _ _ _ _ _ := by unfold keptItems; exact .throw
  assign _ _ _ _ := by unfold Template.assign; exact .throw
  include_ _ _ := by unfold includeTemplate; exact .throw
  includeNamed _ _ _ := by unfold Template.includeNamed; exact .throw
  body _ _ := by unfold runBody; exact .throw
  all _ _ := by unfold runAll; exact .throw
  run _ _ := by unfold Template.run; exact .throw
  place _ := by unfold placeBlock; exact .throw

theorem succ (h : Evaluates w l room) (hw : w.Guarded) : Evaluates w l (room + 1) where
  expr := h.expr_succ hw
  chain := h.chain_succ
  bound := h.bound_succ
  filter := h.filter_succ
  args := h.args_succ hw
  call := h.call_succ hw
  method := h.method_succ
  value := h.value_succ
  macro_ := h.macro_succ
  block := h.block_succ
  super := h.super_succ
  again := h.again_succ
  loop := h.loop_succ
  entered := h.entered_succ hw
  kept := h.kept_succ
  assign := h.assign_succ
  include_ := h.include_succ
  includeNamed v ignoreMissing _ := h.includeNamed_succ hw v ignoreMissing
  body := h.body_succ
  all := h.all_succ
  run := h.run_succ hw
  place := h.place_succ

end Evaluates

/-- Whatever the evaluator runs counts the loop bodies that it enters, at any room and under any limit. -/
theorem evaluates {w : World} (hw : w.Guarded) (l : Limits) (room : Nat) : Evaluates w l room := by
  induction room with
  | zero => exact .zero
  | succ room ih => exact ih.succ hw

end SecureLayout.Template
