import SecureLayout.Proofs.Template.Guarded

/-!
What macros take along from where they are defined. Main statements: a macro that loops takes the counting
function along whatever else it names, and so it reads what its scope is given after it; a macro that takes
nothing along reads nothing of that scope.
-/

namespace SecureLayout.Template

/-! ### Names met on the way -/

namespace NameScan

variable {s t u : NameScan} {n : String}

/-- No scope assigns the name of the function that counts. -/
def Clear (s : NameScan) : Prop :=
  ∀ names ∈ s.scopes, tickFunction ∉ names

/-- What was free stays free, and the name of the function that counts is not assigned on the way. -/
structure Grows (s t : NameScan) : Prop where
  free : s.free ⊆ t.free
  clear : s.Clear → t.Clear

theorem Grows.refl (s : NameScan) : s.Grows s :=
  ⟨List.Subset.refl _, id⟩

theorem Grows.trans (h : s.Grows t) (h' : t.Grows u) : s.Grows u :=
  ⟨fun _ hmem => h'.free (h.free hmem), h'.clear ∘ h.clear⟩

theorem grows_use (s : NameScan) (n : String) : s.Grows (s.use n) := by
  unfold use
  split
  · exact .refl s
  · exact ⟨List.subset_append_left _ _, id⟩

theorem grows_assign (hn : n ≠ tickFunction) : s.Grows (s.assign n) := by
  unfold assign
  split
  · refine ⟨List.Subset.refl _, fun _ => ?_⟩
    simpa [Clear] using hn.symm
  · next top r hs =>
    refine ⟨List.Subset.refl _, fun h => ?_⟩
    rw [Clear, hs, List.forall_mem_cons] at h
    exact List.forall_mem_cons.2 ⟨List.not_mem_cons_of_ne_of_not_mem hn.symm h.1, h.2⟩

theorem grows_push (s : NameScan) : s.Grows s.push :=
  ⟨List.Subset.refl _, fun h => List.forall_mem_cons.2 ⟨List.not_mem_nil, h⟩⟩

theorem grows_pop (s : NameScan) : s.Grows s.pop :=
  ⟨List.Subset.refl _, fun h names hmem => h names (List.mem_of_mem_drop hmem)⟩

theorem grows_foldl {α : Type} {f : NameScan → α → NameScan} {xs : List α}
    (h : ∀ x ∈ xs, ∀ s, Grows s (f s x)) (s : NameScan) : s.Grows (xs.foldl f s) := by
  induction xs generalizing s with
  | nil => exact .refl s
  | cons x xs ih =>
    obtain ⟨hx, hxs⟩ := List.forall_mem_cons.1 h
    exact (hx s).trans (ih hxs _)

/-- Where nothing assigns it, a name that is used is free. -/
theorem Clear.mem_use (h : s.Clear) : tickFunction ∈ (s.use tickFunction).free := by
  have hassigned : s.isAssigned tickFunction = false := by
    simpa [isAssigned, Clear] using h
  unfold use
  rw [hassigned, Bool.false_or]
  split
  · next hfree => simpa using hfree
  · exact List.mem_append_right _ (List.mem_singleton_self _)

end NameScan

open NameScan

/-! ### Expressions and targets -/

mutual

theorem Expr.grows : (e : Expr) → (s : NameScan) → s.Grows (e.scanNames s)
  | .var _ n, s => grows_use s n
  | .literal _ _, s => .refl s
  | .list _ es, s => exprs_grow es s
  | .map _ es, s => pairs_grow es s
  | .unary _ _ e, s => e.grows s
  | .binary _ _ a b, s => (a.grows s).trans (b.grows _)
  | .compare _ e r, s => (e.grows s).trans (comparisons_grow r _)
  | .choice _ t y n, s => ((t.grows s).trans (y.grows _)).trans (option_grows n _)
  | .filter _ _ e args, s => (option_grows e s).trans (args_grow args _)
  | .test _ _ e args, s => (e.grows s).trans (args_grow args _)
  | .attr _ e _, s => e.grows s
  | .item _ e k, s => (e.grows s).trans (k.grows _)
  | .slice _ e a b c, s =>
    (((e.grows s).trans (option_grows a _)).trans (option_grows b _)).trans (option_grows c _)
  | .call _ f args, s => (f.grows s).trans (args_grow args _)

theorem Arg.grows : (a : Arg) → (s : NameScan) → s.Grows (a.scanNames s)
  | .positional e, s => e.grows s
  | .named _ e, s => e.grows s
  | .spread e, s => e.grows s
  | .spreadNamed e, s => e.grows s

theorem option_grows : (e : Option Expr) → (s : NameScan) → s.Grows (scanOptional e s)
  | none, s => .refl s
  | some e, s => e.grows s

theorem exprs_grow : (es : List Expr) → (s : NameScan) → s.Grows (scanExprs es s)
  | [], s => .refl s
  | e :: r, s => (e.grows s).trans (exprs_grow r _)

theorem pairs_grow : (es : List (Expr × Expr)) → (s : NameScan) → s.Grows (scanPairs es s)
  | [], s => .refl s
  | (k, e) :: r, s => ((k.grows s).trans (e.grows _)).trans (pairs_grow r _)

theorem comparisons_grow : (es : List (Comparison × Expr)) → (s : NameScan) → s.Grows (scanComparisons es s)
  | [], s => .refl s
  | (_, e) :: r, s => (e.grows s).trans (comparisons_grow r _)

theorem args_grow : (as : List Arg) → (s : NameScan) → s.Grows (scanArgs as s)
  | [], s => .refl s
  | a :: r, s => (a.grows s).trans (args_grow r _)

end

mutual

theorem Target.grows : (t : Target) → tickFunction ∉ t.names → (s : NameScan) → s.Grows (t.scanAssigned s)
  | .name _ _, h, _ => grows_assign fun hn => h (List.mem_singleton.2 hn.symm)
  | .attr _ e _, _, s => e.grows s
  | .list _ ts, h, s => targets_grow ts h s

theorem targets_grow :
    (ts : List Target) → tickFunction ∉ targetsNames ts → (s : NameScan) → s.Grows (scanTargets ts s)
  | [], _, s => .refl s
  | t :: r, h, s =>
    (t.grows (fun hmem => h (List.mem_append_left _ hmem)) s).trans
      (targets_grow r (fun hmem => h (List.mem_append_right _ hmem)) _)

end

theorem bindings_grow {bs : List (Target × Expr)} (h : tickFunction ∉ bindingsNames bs) (s : NameScan) :
    s.Grows (scanBindings bs s) := by
  induction bs generalizing s with
  | nil => exact .refl s
  | cons b bs ih =>
    obtain ⟨t, e⟩ := b
    simp only [bindingsNames, List.flatMap_cons, List.mem_append, not_or] at h
    exact ((t.grows h.1.1 s).trans (e.grows _)).trans (ih h.2 _)

theorem params_grow {ps : List String} (h : tickFunction ∉ ps) (s : NameScan) :
    s.Grows (ps.foldl NameScan.assign s) :=
  grows_foldl (fun _ hp _ => grows_assign fun heq => h (heq ▸ hp)) s

theorem imported_grow {ns : List (String × Option String)} (h : tickFunction ∉ namesImported ns) (s : NameScan) :
    s.Grows (ns.foldl (fun s n => s.assign (n.2.getD n.1)) s) := by
  apply grows_foldl
  intro n hn s
  apply grows_assign
  intro heq
  apply h
  rw [namesImported, List.mem_flatMap]
  refine ⟨n, hn, ?_⟩
  cases has : n.2 with
  | none => simp_all
  | some a => simp_all

/-! ### Statements -/

variable {ss : List Stmt} {s x : Stmt} {t : NameScan}

/-- A scan goes through statements one after the other. -/
structure Covers (ss : List Stmt) (t u : NameScan) : Prop where
  grows : t.Grows u
  passes : ∀ x ∈ ss, ∃ v, t.Grows v ∧ (x.scanNames v).Grows u

namespace Covers

variable {us : List Stmt} {u v : NameScan}

theorem of_grows (h : t.Grows u) : Covers [] t u :=
  ⟨h, fun _ hx => absurd hx List.not_mem_nil⟩

theorem mono (h : Covers ss u v) {t' v' : NameScan} (ht : t'.Grows u) (hv : v.Grows v') : Covers ss t' v' := by
  refine ⟨(ht.trans h.grows).trans hv, fun x hx => ?_⟩
  obtain ⟨w, hw, hwv⟩ := h.passes x hx
  exact ⟨w, ht.trans hw, hwv.trans hv⟩

theorem append (h : Covers ss t u) (h' : Covers us u v) : Covers (ss ++ us) t v := by
  refine ⟨h.grows.trans h'.grows, fun x hx => ?_⟩
  rcases List.mem_append.1 hx with hx | hx
  · exact (h.mono (.refl t) h'.grows).passes x hx
  · exact (h'.mono h.grows (.refl v)).passes x hx

end Covers

theorem covers_scanStmts (h : ∀ x ∈ ss, ∀ t, NameScan.Grows t (x.scanNames t)) (t : NameScan) :
    Covers ss t (scanStmts ss t) := by
  induction ss generalizing t with
  | nil => exact .of_grows (.refl t)
  | cons x ss ih =>
    obtain ⟨hx, hss⟩ := List.forall_mem_cons.1 h
    have hfirst : Covers [x] t (x.scanNames t) := by
      refine ⟨hx t, fun y hy => ?_⟩
      cases List.mem_singleton.1 hy
      exact ⟨t, .refl t, .refl _⟩
    exact hfirst.append (ih hss _)

/-- The body of a macro comes after its parameters and their defaults. -/
theorem covers_macroBody {params : List String} {defaults : List Expr} (hparams : tickFunction ∉ params)
    (h : ∀ x ∈ ss, ∀ t, NameScan.Grows t (x.scanNames t)) (t : NameScan) :
    Covers ss t (scanStmts ss (scanExprs defaults (params.foldl NameScan.assign t))) :=
  (covers_scanStmts h _).mono ((params_grow hparams t).trans (exprs_grow defaults _)) (.refl _)

/-- The statements in a statement, with the tick of a loop. -/
def Stmt.bodies : Stmt → List Stmt
  | .forLoop _ (.mk _ _ _ _ b o) => b ++ o
  | s => s.inner

theorem Stmt.inner_subset_bodies (s : Stmt) : s.inner ⊆ s.bodies := by
  cases s with
  | forLoop n l =>
    cases l with
    | mk target subject keep recursive body other =>
      exact List.append_subset.2
        ⟨List.Subset.trans (List.tail_subset body) (List.subset_append_left _ _), List.subset_append_right _ _⟩
  | _ => exact List.Subset.refl _

/-- Names are looked for in every statement in a statement. -/
theorem Stmt.covers_bodies (head : tickFunction ∉ s.headNames)
    (h : ∀ x ∈ s.bodies, ∀ t, NameScan.Grows t (x.scanNames t)) (t : NameScan) :
    Covers s.bodies t (s.scanNames t) := by
  cases s with
  | text a => exact .of_grows (.refl t)
  | emit e => exact .of_grows (e.grows t)
  | forLoop n l =>
    cases l with
    | mk target subject keep recursive body other =>
      obtain ⟨hbody, hother⟩ := List.forall_mem_append.1 h
      simp only [headNames, List.mem_append, not_or] at head
      have hhead : t.Grows (target.scanAssigned ((subject.scanNames t.push).assign "loop")) :=
        (((grows_push t).trans (subject.grows _)).trans (grows_assign (by decide))).trans (target.grows head.1 _)
      have hloop := (covers_scanStmts hbody _).mono (hhead.trans (option_grows keep _)) (grows_pop _)
      exact hloop.append ((covers_scanStmts hother _).mono (grows_push _) (grows_pop _))
  | ifThen test yes no =>
    obtain ⟨hyes, hno⟩ := List.forall_mem_append.1 h
    have hthen := (covers_scanStmts hyes _).mono ((test.grows t).trans (grows_push _)) (grows_pop _)
    exact hthen.append ((covers_scanStmts hno _).mono (grows_push _) (grows_pop _))
  | withValues line bindings body =>
    exact (covers_scanStmts h _).mono ((grows_push t).trans (bindings_grow head _)) (grows_pop _)
  | set line target e =>
    simp only [headNames, List.mem_append, not_or] at head
    exact .of_grows ((target.grows head.1 t).trans (e.grows _))
  | setBlock line target filter body =>
    simp only [headNames, List.mem_append, not_or] at head
    exact (covers_scanStmts h _).mono ((target.grows head.1 t).trans (grows_push _))
      ((grows_pop _).trans (option_grows filter _))
  | autoescape mode body =>
    exact (covers_scanStmts h _).mono ((mode.grows t).trans (grows_push _)) (grows_pop _)
  | filterBlock line filter body =>
    exact (covers_scanStmts h _).mono (grows_push t) ((grows_pop _).trans (filter.grows _))
  | block line name body => exact (covers_scanStmts h _).mono (grows_push t) (grows_pop _)
  | inherit line e => exact .of_grows (e.grows t)
  | includeFile line e ignoreMissing => exact .of_grows (e.grows t)
  | importAs line e target =>
    simp only [headNames, List.mem_append, not_or] at head
    exact .of_grows ((e.grows t).trans (target.grows head.2 _))
  | importNames line e names =>
    simp only [headNames, List.mem_append, not_or] at head
    exact .of_grows ((e.grows t).trans (imported_grow head.2 _))
  | define line m =>
    cases m with
    | mk line name params defaults body =>
      simp only [headNames, Macro.headNames, List.mem_cons, List.mem_append, not_or] at head
      have hname : t.Grows (t.assign name) := grows_assign (Ne.symm head.1)
      exact (covers_macroBody head.2.1 h _).mono (hname.trans (grows_push _)) (grows_pop _)
  | callBlock line e m =>
    cases m with
    | mk line name params defaults body =>
      simp only [headNames, Macro.headNames, List.mem_cons, List.mem_append, not_or] at head
      exact (covers_macroBody head.2.2.1 h _).mono ((e.grows t).trans (grows_push _)) (grows_pop _)
  | run line e => exact .of_grows (e.grows t)

theorem Stmt.IsTick.scanNames (h : s.IsTick) (t : NameScan) :
    s.scanNames t = (t.assign "__lg_tick").use tickFunction := by
  unfold Stmt.IsTick at h
  split at h
  · obtain ⟨rfl, rfl⟩ := h
    rfl
  · exact h.elim

theorem Stmt.IsTick.grows (h : s.IsTick) (t : NameScan) : t.Grows (s.scanNames t) := by
  rw [h.scanNames]
  exact (grows_assign (by decide)).trans (grows_use _ _)

theorem Stmt.IsTick.takes (h : s.IsTick) (ht : t.Clear) : tickFunction ∈ (s.scanNames t).free := by
  rw [h.scanNames]
  exact ((grows_assign (by decide)).clear ht).mem_use

namespace Stmt.Metered

/-- Every statement in a statement that counts its loops is such a one or a tick. -/
theorem bodies_cases (h : s.Metered) : ∀ x ∈ s.bodies, x.IsTick ∨ x ∈ s.inner := by
  cases s with
  | forLoop n l =>
    obtain ⟨a, r, hbody, htick, -⟩ := h.loop.body
    cases l with
    | mk target subject keep recursive body other =>
      cases hbody
      intro x hx
      rcases List.mem_cons.1 hx with rfl | hx
      · exact .inl htick
      · exact .inr hx
  | _ => exact fun x hx => .inr hx

theorem grows (h : s.Metered) : ∀ t, NameScan.Grows t (s.scanNames t) := by
  induction h with
  | mk head counts inner ih =>
    intro t
    refine (covers_bodies head (fun x hx => ?_) t).grows
    rcases bodies_cases ⟨head, counts, inner⟩ x hx with htick | hx
    · exact htick.grows
    · exact ih x hx

theorem covers (h : s.Metered) (t : NameScan) : Covers s.bodies t (s.scanNames t) := by
  apply covers_bodies h.head
  intro x hx
  rcases h.bodies_cases x hx with htick | hx
  · exact htick.grows
  · exact (h.inner x hx).grows

end Stmt.Metered

/-- A loop stands in the statement, be it in a macro. -/
inductive Stmt.HasLoop : Stmt → Prop
  | loop (line : Nat) (l : Loop) : (Stmt.forLoop line l).HasLoop
  | inner {s x : Stmt} (hx : x ∈ s.inner) (h : x.HasLoop) : s.HasLoop

/-- Where nothing assigns the counting function, a statement with a loop takes it from outside. -/
theorem Stmt.Metered.takes (h : s.Metered) (hloop : s.HasLoop) (ht : t.Clear) :
    tickFunction ∈ (s.scanNames t).free := by
  induction hloop generalizing t with
  | loop line l =>
    obtain ⟨a, r, hbody, htick, -⟩ := h.loop.body
    have ha : a ∈ (Stmt.forLoop line l).bodies := by
      cases l with
      | mk target subject keep recursive body other =>
        cases hbody
        exact List.mem_append_left _ List.mem_cons_self
    obtain ⟨u, htu, hu⟩ := (h.covers t).passes a ha
    exact hu.free (htick.takes (htu.clear ht))
  | @inner s x hx _ ih =>
    obtain ⟨u, htu, hu⟩ := (h.covers t).passes x (s.inner_subset_bodies hx)
    exact hu.free (ih (h.inner x hx) (htu.clear ht))

/-- A macro that loops takes the counting function along, in nested macros too. -/
theorem Macro.Metered.mem_freeNames {m : Macro} (h : m.Metered) (hloop : ∃ x ∈ m.body, x.HasLoop) :
    tickFunction ∈ m.freeNames := by
  cases m with
  | mk line name params defaults body =>
    obtain ⟨x, hx, hloop⟩ := hloop
    have head := h.head
    simp only [headNames, List.mem_cons, List.mem_append, not_or] at head
    have hempty : NameScan.Clear {} := List.forall_mem_singleton.2 List.not_mem_nil
    obtain ⟨u, hu, hxu⟩ := (covers_macroBody head.2.1 (fun x hx => (h.body x hx).grows) {}).passes x hx
    exact hxu.free ((h.body x hx).takes hloop (hu.clear hempty))

/-- A loop with its tick in a macro that names nothing else. -/
example :
    (Macro.mk 1 "m" [] [] [.forLoop 1 (.mk (.name 1 "i") (.list 1 [.literal 1 (.int 1)]) none false
      [.set 1 (.name 1 "__lg_tick") (.call 1 (.var 1 tickFunction) []),
        .includeFile 1 (.literal 1 (.text "t")) false] [])]).freeNames = [tickFunction] := by
  decide

/-! ### Making a macro -/

namespace Machine

variable {m : Machine} {w : World} {name : String} {v : Value} {i : Nat}

/-- The macros of the innermost scope share the names in a cell. -/
structure Shares (m : Machine) (i : Nat) : Prop where
  scope : ∃ top ∈ m.context.scopes.head?, top.captured = some i
  cell : ∃ es, m.heap[i]? = some (.names es)

/-- What the innermost scope shares, if it shares anything, is a cell of names. -/
def SharesNames (m : Machine) : Prop :=
  ∀ top ∈ m.context.scopes.head?, ∀ i ∈ top.captured, ∃ es, m.heap[i]? = some (.names es)

theorem Shares.updateNames (h : m.Shares i) (j : Nat) (f : Entries Value → Entries Value) :
    (m.updateCell j (.mapNames f)).Shares i := by
  refine ⟨h.scope, ?_⟩
  obtain ⟨es, hes⟩ := h.cell
  rw [updateCell, List.getElem?_modify, hes]
  by_cases hij : j = i
  · exact ⟨f es, by simp [hij, Cell.mapNames]⟩
  · exact ⟨es, by simp [hij]⟩

theorem Shares.enclose (h : m.Shares i) (w : World) (name : String) : (m.enclose w name).Shares i := by
  obtain ⟨top, htop, hcaptured⟩ := h.scope
  unfold Machine.enclose
  split
  · exact h
  · next top' r hs =>
    obtain rfl : top' = top := by simpa [hs] using htop
    rw [shared, hcaptured]
    exact h.updateNames _ _

theorem shares_shared {top : Scope} {r : List Scope} (hm : m.SharesNames) (hs : m.context.scopes = top :: r) :
    (m.shared top r).2.Shares (m.shared top r).1 := by
  have htop : top ∈ m.context.scopes.head? := by simp [hs]
  rw [shared]
  cases hcaptured : top.captured with
  | some i => exact ⟨⟨top, htop, hcaptured⟩, hm top htop i hcaptured⟩
  | none => exact ⟨⟨_, rfl, rfl⟩, [], List.getElem?_concat_length⟩

/-- Where a name is taken along, something is shared from then on. -/
theorem exists_shares_enclose (hscopes : m.context.scopes ≠ []) (hm : m.SharesNames) (w : World) (name : String) :
    ∃ i, (m.enclose w name).Shares i := by
  unfold Machine.enclose
  split
  · next hs => exact absurd hs hscopes
  · next hs => exact ⟨_, (shares_shared hm hs).updateNames _ _⟩

theorem Shares.alloc (h : m.Shares i) (c : Cell) : (m.alloc c).2.Shares i := by
  obtain ⟨es, hes⟩ := h.cell
  obtain ⟨hlt, -⟩ := List.getElem?_eq_some_iff.1 hes
  exact ⟨h.scope, es, (List.getElem?_append_left hlt).trans hes⟩

/-- Names are taken along one after the other. -/
def encloseAll (m : Machine) (w : World) (names : List String) : Machine :=
  names.foldl (fun m n => m.enclose w n) m

theorem Shares.encloseAll (h : m.Shares i) (w : World) (names : List String) : (m.encloseAll w names).Shares i := by
  induction names generalizing m with
  | nil => exact h
  | cons n names ih => exact ih (h.enclose w n)

theorem exists_shares_encloseAll (hscopes : m.context.scopes ≠ []) (hm : m.SharesNames) (w : World)
    {names : List String} (hnames : names ≠ []) : ∃ i, (m.encloseAll w names).Shares i := by
  cases names with
  | nil => exact absurd rfl hnames
  | cons n names =>
    obtain ⟨i, hi⟩ := exists_shares_enclose hscopes hm w n
    exact ⟨i, hi.encloseAll w names⟩

/-- A value that a name is given is what the macros of the scope find under it. -/
theorem Shares.store (h : m.Shares i) (name : String) (v : Value) :
    (m.store name v).Shares i ∧ ∀ w k, (m.store name v).baseValue? w k (.captured i) =
      if k = name then some v else m.baseValue? w k (.captured i) := by
  obtain ⟨top, htop, hcaptured⟩ := h.scope
  obtain ⟨es, hes⟩ := h.cell
  unfold Machine.store
  split
  · next hs => simp [hs] at htop
  · next top' r hs =>
    obtain rfl : top' = top := by simpa [hs] using htop
    have hshare : m.share top' name v = m.updateCell i (.mapNames (Entries.put name v)) := by
      rw [share, hcaptured]
    rw [hshare]
    refine ⟨⟨⟨_, rfl, hcaptured⟩, (h.updateNames i _).cell⟩, fun w k => ?_⟩
    have hput : (m.heap.modify i (.mapNames (Entries.put name v)))[i]? = some (.names (Entries.put name v es)) := by
      rw [List.getElem?_modify, hes]
      simp [Cell.mapNames]
    simp only [baseValue?, withScopes, updateCell, hput, hes, Entries.get?_put]

/-- Values are given to names one after the other. -/
def storeAll (m : Machine) (es : List (String × Value)) : Machine :=
  es.foldl (fun m e => m.store e.1 e.2) m

theorem Shares.storeAll (h : m.Shares i) (es : List (String × Value)) :
    (m.storeAll es).Shares i ∧ ∀ w k, k ∉ es.map Prod.fst →
      (m.storeAll es).baseValue? w k (.captured i) = m.baseValue? w k (.captured i) := by
  induction es generalizing m with
  | nil => exact ⟨h, fun w k _ => rfl⟩
  | cons e es ih =>
    obtain ⟨hshares, hfirst⟩ := h.store e.1 e.2
    obtain ⟨hrest, hlast⟩ := ih hshares
    refine ⟨hrest, fun w k hk => ?_⟩
    simp only [List.map_cons, List.mem_cons, not_or] at hk
    exact (hlast w k hk.2).trans ((hfirst w k).trans (if_neg hk.1))

/-- The last value that a name is given is what the macros of the scope find under it. -/
theorem Shares.last_store (h : m.Shares i) (es fs : List (String × Value)) (hfs : name ∉ fs.map Prod.fst) :
    (m.storeAll (es ++ (name, v) :: fs)).baseValue? w name (.captured i) = some v := by
  rw [Machine.storeAll, List.foldl_append, List.foldl_cons]
  obtain ⟨hes, -⟩ := h.storeAll es
  obtain ⟨hstore, hv⟩ := hes.store name v
  exact ((hstore.storeAll fs).2 w name hfs).trans ((hv w name).trans (if_pos rfl))

end Machine

section Making

variable {m : Machine} {w : World} {decl : Macro}

theorem forM_enclose (names : List String) :
    (names.forM (Eval.enclose w) : Eval PUnit) m = (.ok (), m.encloseAll w names) := by
  induction names generalizing m with
  | nil => rfl
  | cons n names ih => exact ih

/-- The closure of a macro in the state that has taken its names along. -/
def closureIn (m : Machine) (decl : Macro) : Closure :=
  { decl
    captured := m.context.scopes.head?.bind (·.captured)
    template := m.context.template
    usesCaller := decl.freeNames.contains "caller" }

/-- A definition of a macro leaves a closure behind. -/
def Makes (w : World) (decl : Macro) (m : Machine) (c : Closure) (m' : Machine) : Prop :=
  ∃ ref, makeMacro w decl m = (.ok (.object .macro_ ref), m') ∧ m'.heap[ref]? = some (.macro_ c) ∧ c.decl = decl

/-- What a macro takes along is shared before the macro is there. -/
theorem makes_closure (m : Machine) (w : World) (decl : Macro) :
    let m' := m.encloseAll w (decl.freeNames.filter (· != "caller"))
    Makes w decl m (closureIn m' decl) (m'.alloc (.macro_ (closureIn m' decl))).2 := by
  have hnames := forM_enclose (m := m) (w := w) (decl.freeNames.filter (· != "caller"))
  refine ⟨_, ?_, List.getElem?_concat_length, rfl⟩
  unfold makeMacro
  change (ExceptT.bindCont _ (List.forM _ (Eval.enclose w) m).1 : StateM Machine (Except Error Value))
    (List.forM _ (Eval.enclose w) m).2 = _
  rw [hnames]
  rfl

/-- Beside its caller, the scope of a macro has what the macro took along. -/
theorem Closure.scopeValue? (c : Closure) (a : Args) {name : String} (hname : name ≠ "caller") :
    m.scopeValue? w name (c.scope a) =
      match c.captured with
      | some i => m.baseValue? w name (.captured i)
      | none => none := by
  have hlocals : Entries.get? name (c.scope a).locals = none := by
    unfold Closure.scope
    split
    · exact if_neg hname
    · rfl
  rw [Machine.scopeValue?, hlocals]
  unfold Closure.scope
  cases c.captured with
  | none => rfl
  | some i => rfl

/-- The macro reads the last value that a name of the innermost scope is given. -/
def Closure.Follows (c : Closure) (w : World) (m : Machine) : Prop :=
  ∀ (es fs : List (String × Value)) (name : String) (v : Value) (a : Args), name ≠ "caller" →
    name ∉ fs.map Prod.fst → (m.storeAll (es ++ (name, v) :: fs)).scopeValue? w name (c.scope a) = some v

/-- A macro that takes a name along follows all names of the scope that it is defined in. -/
theorem exists_follows (hdecl : ∃ n ∈ decl.freeNames, n ≠ "caller") (hscopes : m.context.scopes ≠ [])
    (hm : m.SharesNames) : ∃ c m', Makes w decl m c m' ∧ c.Follows w m' := by
  obtain ⟨n, hn, hcaller⟩ := hdecl
  have hnames : decl.freeNames.filter (· != "caller") ≠ [] :=
    List.ne_nil_of_mem (List.mem_filter.2 ⟨hn, bne_iff_ne.2 hcaller⟩)
  obtain ⟨i, hi⟩ := Machine.exists_shares_encloseAll hscopes hm w hnames
  refine ⟨_, _, makes_closure m w decl, fun es fs name v a hname hfs => ?_⟩
  obtain ⟨top, htop, hcaptured⟩ := hi.scope
  have hclosure : (closureIn (m.encloseAll w (decl.freeNames.filter (· != "caller"))) decl).captured = some i := by
    rw [closureIn, Option.mem_def.1 htop]
    exact hcaptured
  rw [Closure.scopeValue? _ a hname, hclosure]
  exact (hi.alloc _).last_store es fs hfs

/-- A macro that loops follows all names of the scope that it is defined in, whether or not it names any. -/
theorem exists_follows_of_loop (h : decl.Metered) (hloop : ∃ x ∈ decl.body, x.HasLoop)
    (hscopes : m.context.scopes ≠ []) (hm : m.SharesNames) : ∃ c m', Makes w decl m c m' ∧ c.Follows w m' :=
  exists_follows ⟨tickFunction, h.mem_freeNames hloop, by decide⟩ hscopes hm

/-- A macro that takes nothing along, defined where nothing is shared, never sees a name of its scope. -/
theorem exists_blind (hdecl : ∀ n ∈ decl.freeNames, n = "caller")
    (hm : ∀ top ∈ m.context.scopes.head?, top.captured = none) :
    ∃ c m', Makes w decl m c m' ∧
      ∀ (later : Machine) (name : String) (a : Args), name ≠ "caller" →
        later.scopeValue? w name (c.scope a) = none := by
  have hnames : decl.freeNames.filter (· != "caller") = [] := by
    rw [List.filter_eq_nil_iff]
    intro n hn
    simp [hdecl n hn]
  have hmakes := makes_closure m w decl
  rw [hnames] at hmakes
  refine ⟨_, _, hmakes, fun later name a hname => ?_⟩
  have hclosure : (closureIn (m.encloseAll w []) decl).captured = none :=
    Option.bind_eq_none_iff.2 hm
  rw [Closure.scopeValue? _ a hname, hclosure]

end Making

end SecureLayout.Template
