import SecureLayout.Proofs.Template.Metering

/-!
Scopes, names and loops of a render. Main statement: what a statement does to names, scopes and values by reference
counts no loop body and gives the name of the counting function to nothing.
-/

namespace SecureLayout.Template

open Eval

/-! ### Cells -/

namespace Cell.Guarded

variable {c : Cell}

theorem mapLoop {f : LoopState → LoopState} (h : c.Guarded)
    (hf : ∀ s, (Cell.loop s).Guarded → (Cell.loop (f s)).Guarded) : (c.mapLoop f).Guarded := by
  cases h with
  | loop previous next => exact hf _ (.loop previous next)
  | space h => exact .space h
  | names h => exact .names h
  | macro_ h => exact .macro_ h

theorem mapSpace {f : Entries Value → Entries Value} (h : c.Guarded)
    (hf : ∀ es : Entries Value, (∀ e ∈ es, e.2.Tickless) → ∀ e ∈ f es, e.2.Tickless) : (c.mapSpace f).Guarded := by
  cases h with
  | loop previous next => exact .loop previous next
  | space h => exact .space (hf _ h)
  | names h => exact .names h
  | macro_ h => exact .macro_ h

theorem mapNames {f : Entries Value → Entries Value} (h : c.Guarded)
    (hf : ∀ es : Entries Value, (∀ e ∈ es, Fits e.1 e.2) → ∀ e ∈ f es, Fits e.1 e.2) : (c.mapNames f).Guarded := by
  cases h with
  | loop previous next => exact .loop previous next
  | space h => exact .space h
  | names h => exact .names (hf _ h)
  | macro_ h => exact .macro_ h

end Cell.Guarded

namespace Machine

variable {m : Machine} {w : World} {n i : Nat} {c : Cell} {name : String} {v : Value} {top : Scope} {r : List Scope}

theorem Guarded.updateCell {f : Cell → Cell} (h : m.Guarded) (hf : ∀ c : Cell, c.Guarded → (f c).Guarded) :
    (m.updateCell i f).Guarded := by
  refine ⟨h.context, ?_⟩
  intro c hc
  obtain ⟨j, hj⟩ := List.mem_iff_getElem?.1 hc
  rw [Machine.updateCell, List.getElem?_modify] at hj
  obtain ⟨a, ha, rfl⟩ := Option.map_eq_some_iff.1 hj
  split
  · exact hf a (h.cell ha)
  · exact h.cell ha

theorem Guarded.alloc (h : m.Guarded) (hc : c.Guarded) : (m.alloc c).2.Guarded := by
  refine ⟨h.context, ?_⟩
  intro a ha
  rcases List.mem_append.1 ha with ha | ha
  · exact h.heap a ha
  · rw [List.mem_singleton.1 ha]
    exact hc

theorem Guarded.withScopes {ss : List Scope} (h : m.Guarded) (hs : ∀ s ∈ ss, s.Guarded) : (m.withScopes ss).Guarded :=
  ⟨⟨hs, h.context.blocks, h.context.parent⟩, h.heap⟩

/-! ### Names -/

theorem share_raised : (m.raised n).share top name v = (m.share top name v).raised n := by
  unfold share
  split <;> rfl

theorem counters_share : (m.share top name v).counters = m.counters := by
  unfold share
  split <;> rfl

theorem Guarded.share (h : m.Guarded) (hv : Fits name v) : (m.share top name v).Guarded := by
  unfold Machine.share
  split
  · exact h.updateCell fun c hc => hc.mapNames fun es hes => hv.put hes
  · exact h

theorem store_raised : (m.raised n).store name v = (m.store name v).raised n := by
  unfold store
  rw [raised_context]
  split
  · rfl
  · rw [share_raised]
    rfl

theorem counters_store : (m.store name v).counters = m.counters := by
  unfold store
  split
  · rfl
  · exact counters_share

theorem Guarded.store (h : m.Guarded) (hn : name ≠ tickFunction) (hv : v.Tickless) : (m.store name v).Guarded := by
  unfold Machine.store
  split
  · exact h
  · next top r hs =>
    obtain ⟨htop, hr⟩ := List.forall_mem_cons.1 (hs ▸ h.context.scopes)
    have hlocals : ∀ e ∈ Entries.put name v top.locals, e.1 ≠ tickFunction ∧ e.2.Tickless := by
      intro e he
      rcases Entries.mem_put he with rfl | he
      · exact ⟨hn, hv⟩
      · exact ⟨htop.names e he, htop.values e he⟩
    apply (h.share (fits_of_ne hn hv)).withScopes
    exact List.forall_mem_cons.2 ⟨⟨fun e he => (hlocals e he).1, fun e he => (hlocals e he).2, htop.again⟩, hr⟩

theorem shared_raised : (m.raised n).shared top r = ((m.shared top r).1, (m.shared top r).2.raised n) := by
  unfold shared
  split <;> rfl

theorem counters_shared : (m.shared top r).2.counters = m.counters := by
  unfold shared
  split <;> rfl

theorem Guarded.shared (h : m.Guarded) (hs : m.context.scopes = top :: r) : (m.shared top r).2.Guarded := by
  unfold Machine.shared
  split
  · exact h
  · obtain ⟨htop, hr⟩ := List.forall_mem_cons.1 (hs ▸ h.context.scopes)
    apply (h.alloc (.names fun e he => absurd he List.not_mem_nil)).withScopes
    exact List.forall_mem_cons.2 ⟨⟨htop.names, htop.values, htop.again⟩, hr⟩

theorem enclose_raised : (m.raised n).enclose w name = (m.enclose w name).raised n := by
  unfold enclose
  rw [raised_context]
  split
  · rfl
  · rw [shared_raised]
    rfl

theorem counters_enclose : (m.enclose w name).counters = m.counters := by
  unfold enclose
  split
  · rfl
  · exact counters_shared

theorem Guarded.enclose (h : m.Guarded) (hw : w.Guarded) : (m.enclose w name).Guarded := by
  unfold Machine.enclose
  split
  · exact h
  · next top r hs =>
    have hm := h.shared hs
    have hfits : Fits name (((m.shared top r).2.lookup? w name).getD (.undefined false)) := by
      by_cases hn : name = tickFunction
      · subst hn
        rw [hm.lookup?_tick hw]
        exact ⟨fun _ => rfl, fun hne => absurd rfl hne⟩
      · exact fits_of_ne hn (Value.tickless_getD (fun v hv => (hm.lookup? hw v hv).other hn) (.undefined _))
    apply hm.updateCell
    intro c hc
    apply hc.mapNames
    intro es hes
    split
    · exact hes
    · exact hfits.put hes

end Machine

/-! ### Blocks -/

theorem stacksOf_metered {name : String} {stmts : List Stmt} (h : ∀ s ∈ stmts, s.Metered) :
    ∀ e ∈ stacksOf name stmts, ∀ b ∈ e.2.bodies, b.Metered := by
  intro e he b hb
  obtain ⟨a, ha, rfl⟩ := List.mem_map.1 (Entries.mem_ofList he)
  rw [List.mem_singleton.1 hb]
  exact blocksOf_metered h a ha

theorem appendBlocks_metered {name : String} {stmts : List Stmt} {bs : Entries BlockStack}
    (h : ∀ s ∈ stmts, s.Metered) (hbs : ∀ e ∈ bs, ∀ b ∈ e.2.bodies, b.Metered) :
    ∀ e ∈ appendBlocks name stmts bs, ∀ b ∈ e.2.bodies, b.Metered := by
  have hblocks := blocksOf_metered h
  unfold appendBlocks
  generalize blocksOf stmts = blocks at hblocks ⊢
  induction blocks generalizing bs with
  | nil => exact hbs
  | cons a blocks ih =>
    obtain ⟨ha, hblocks⟩ := List.forall_mem_cons.1 hblocks
    refine ih ?_ hblocks
    intro e he b hb
    rcases Entries.mem_put he with rfl | he
    · rcases List.mem_append.1 hb with hb | hb
      · cases hget : Entries.get? a.1 bs with
        | none =>
          rw [hget] at hb
          cases hb
        | some stack =>
          rw [hget] at hb
          exact hbs _ (Entries.mem_of_get? hget) b hb
      · rw [List.mem_singleton.1 hb]
        exact ha
    · exact hbs e he b hb

/-! ### Computations -/

/-- Output and whether it is dropped have no part in what is guarded. -/
theorem Context.Guarded.redirect {c : Context} (h : c.Guarded) (out : String) (discarding : Bool) :
    ({ c with out, discarding } : Context).Guarded :=
  ⟨h.scopes, h.blocks, h.parent⟩

namespace Sound

variable {l : Limits} {α : Type} {p : α → Prop} {x : Eval α} {w : World} {v : Value} {name : String}

theorem updateCell {i : Nat} {f : Cell → Cell} (hf : ∀ c : Cell, c.Guarded → (f c).Guarded) :
    Sound l (fun _ => True) (Eval.updateCell i f) :=
  step (g := fun m => ((), m.updateCell i f)) (fun _ _ => rfl) (fun _ => rfl) fun _ hm => ⟨trivial, hm.updateCell hf⟩

theorem store (hn : name ≠ tickFunction) (hv : v.Tickless) : Sound l (fun _ => True) (Eval.store name v) :=
  step (g := fun m => ((), m.store name v)) (fun _ _ => by rw [Machine.store_raised]) (fun _ => Machine.counters_store)
    fun _ hm => ⟨trivial, hm.store hn hv⟩

theorem enclose (hw : w.Guarded) : Sound l (fun _ => True) (Eval.enclose w name) :=
  step (g := fun m => ((), m.enclose w name)) (fun _ _ => by rw [Machine.enclose_raised])
    (fun _ => Machine.counters_enclose) fun _ hm => ⟨trivial, hm.enclose hw⟩

theorem push {s : Scope} (hs : s.Guarded) : Sound l (fun _ => True) (Eval.push s) := by
  apply get (fun _ _ => rfl)
  intro m _
  apply guard
  intro _
  apply change
  intro c hc
  exact ⟨List.forall_mem_cons.2 ⟨hs, hc.scopes⟩, hc.blocks, hc.parent⟩

theorem pop : Sound l (fun _ => True) Eval.pop := by
  apply change
  intro c hc
  exact ⟨fun s hs => hc.scopes s (List.mem_of_mem_drop hs), hc.blocks, hc.parent⟩

theorem inScope {s : Scope} (hs : s.Guarded) (hx : Sound l p x) : Sound l p (Eval.inScope s x) := by
  apply (push hs).after
  apply hx.bind
  intro a ha
  exact pop.after (pure ha)

theorem capture {x : Eval Unit} (hx : Sound l (fun _ => True) x) : Sound l (fun _ => True) (Eval.capture x) := by
  apply context.bind
  intro c _
  apply (change fun d hd => hd.redirect _ _).after
  apply hx.after
  apply context.bind
  intro d _
  exact (change fun d hd => hd.redirect _ _).after (pure trivial)

theorem captured {s : String} : Sound l Value.Tickless (Eval.captured s) :=
  context.bind fun _ _ => pure (.text _ _)

theorem isolated {f : Context → Context} {x : Eval Unit} (hf : ∀ c, c.Guarded → (f c).Guarded)
    (hx : Sound l (fun _ => True) x) : Sound l (fun _ => True) (Eval.isolated f x) := by
  apply context.bind
  intro c hc
  apply (change hf).after
  apply hx.after
  apply context.bind
  intro d _
  exact (change fun _ _ => hc).after (pure trivial)

theorem emit : Sound l (fun _ => True) (Eval.emit v) := by
  unfold Eval.emit
  apply guard
  intro _
  exact get (fun _ _ => rfl) fun _ _ => write

/-! ### Loops -/

theorem iterate (hv : v.Tickless) : Sound l (fun vs => ∀ x ∈ vs, x.Tickless) (Eval.ask fun m => m.iterate v) :=
  ask (fun _ _ => rfl) fun m _ => m.gives_iterate hv

theorem unpack {n : Nat} (hv : v.Tickless) :
    Sound l (fun vs => ∀ x ∈ vs, x.Tickless) (Eval.ask (Template.unpack n v)) := by
  apply ask (fun _ _ => rfl)
  intro m _
  unfold Template.unpack
  split
  · exact .error
  · next vs hvs =>
    split
    · exact .ok ((m.gives_iterate hv).result vs hvs)
    · exact .error

theorem setLoop {ref i : Nat} {previous next : Option Value} (hp : ∀ v ∈ previous, v.Tickless)
    (hn : ∀ v ∈ next, v.Tickless) : Sound l (fun _ => True) (Template.setLoop ref i previous next) :=
  updateCell fun _ hc => hc.mapLoop fun _ _ => .loop hp hn

theorem loopChanged {ref : Nat} {vs : List Value} : Sound l Value.Tickless (Template.loopChanged ref vs) := by
  apply get (fun _ _ => rfl)
  intro m _
  split
  · split
    · exact pure (.bool _)
    · refine (updateCell fun c hc => hc.mapLoop fun s hs => ?_).after (pure (.bool _))
      cases hs with
      | loop previous next => exact .loop previous next
  · exact pure (.bool _)

theorem loopCycle {ref : Nat} {vs : List Value} (h : ∀ v ∈ vs, v.Tickless) :
    Sound l Value.Tickless (Template.loopCycle ref vs) := by
  apply ask (fun _ _ => rfl)
  intro m _
  split
  · exact .ok (Value.tickless_getD (fun v hv => h v (List.mem_of_getElem? hv)) (.undefined _))
  · exact .ok (.undefined _)

theorem setAttr {x : Value} (hx : x.Tickless) : Sound l (fun _ => True) (Template.setAttr v name x) := by
  unfold Template.setAttr
  split
  · apply updateCell
    intro c hc
    apply hc.mapSpace
    intro es hes e he
    rcases Entries.mem_put he with rfl | he
    · exact hx
    · exact hes e he
  · exact throw

/-! ### Macros, functions and templates -/

theorem makeMacro {decl : Macro} (hw : w.Guarded) (h : decl.Metered) :
    Sound l Value.Tickless (Template.makeMacro w decl) := by
  unfold Template.makeMacro
  apply (forM fun _ _ => enclose hw).after
  apply context.bind
  intro c _
  exact (alloc (.macro_ h)).bind fun _ _ => pure (.object _ _)

theorem callee (hw : w.Guarded) (hn : name ≠ tickFunction) : Sound l Value.Tickless (Template.callee w name) := by
  apply get (fun _ _ => rfl)
  intro m hm
  split
  · next v hv => exact pure ((hm.lookup? hw v hv).other hn)
  · exact throw

/-- Every function but the one that counts. -/
theorem callBuiltin {f : Builtin} {a : Args} (hf : f ≠ .tick) (ha : a.Tickless) :
    Sound l Value.Tickless (Template.callBuiltin w f a) := by
  cases f with
  | range => exact lift gives_rangeOf
  | namespace_ =>
    apply (lift (gives_namespaceOf ha)).bind
    intro es hes
    exact (alloc (.space hes)).bind fun _ _ => pure (.object _ _)
  | component =>
    unfold Template.callBuiltin
    dsimp only
    split
    · apply ask (fun _ _ => rfl)
      intro m _
      apply Gives.after
      intro name
      exact gives_placeholder
    · exact throw
  | tick => exact absurd rfl hf

theorem inherit_ (hw : w.Guarded) : Sound l (fun _ => True) (Template.inherit_ w v) := by
  apply context.bind
  intro c _
  apply guard
  intro _
  split
  · apply guard
    intro _
    split
    · exact throw
    · next name _ _ stmts hstmts =>
      have hmetered := hw.templates _ (Entries.mem_of_get? hstmts)
      apply change
      intro c hc
      refine ⟨hc.scopes, appendBlocks_metered hmetered hc.blocks, ?_⟩
      rintro b ⟨⟩
      exact hmetered
  · exact throw

end Sound

/-- A template that is found counts its loops. -/
theorem gives_findTemplate {w : World} (hw : w.Guarded) (vs : List Value) :
    Gives (findTemplate w vs) fun r => ∀ b, r = .inl b → b.Metered := by
  induction vs with
  | nil =>
    apply Gives.ok
    rintro b ⟨⟩
  | cons v vs ih =>
    cases v with
    | text name safe =>
      rw [findTemplate]
      split
      · next stmts h =>
        apply Gives.ok
        rintro b ⟨⟩
        exact hw.templates _ (Entries.mem_of_get? h)
      · apply ih.bind
        intro r hr
        split
        · exact .ok hr
        · apply Gives.ok
          rintro b ⟨⟩
    | _ => exact .error

end SecureLayout.Template
