import SecureLayout.Proofs.Template.Lines
import Mathlib.Data.Set.Card
import Mathlib.Order.Bounds.Defs

/-!
Loops inside loops. The expansion counts open loops over a flat list of tags. Main statement: where every loop of
a source is ended, it is refused exactly if a loop stands inside as many others as the policy allows, and then with
the line of the first such loop; all other such sources are expanded.
-/

namespace SecureLayout.Template

/-- Every loop among the tags is ended by an end of its own, and every end ends a loop. -/
inductive Balanced : List Tag → Prop
  | nil : Balanced []
  | other {t : Tag} {ts : List Tag} : t.role ≠ .loop → t.role ≠ .endLoop → Balanced ts → Balanced (t :: ts)
  | loop {t u : Tag} {body ts : List Tag} : t.role = .loop → u.role = .endLoop → Balanced body → Balanced ts →
      Balanced (t :: (body ++ u :: ts))

/-- The tag at place `i` is a loop, and the tag at place `j` stands between it and its own end. -/
def Encloses (ts : List Tag) (i j : Nat) : Prop :=
  ∃ before t body u after, ts = before ++ t :: (body ++ u :: after) ∧ t.role = .loop ∧ u.role = .endLoop ∧
    Balanced body ∧ before.length = i ∧ i < j ∧ j ≤ i + body.length

/-- The places of all loops around a place. -/
def enclosing (ts : List Tag) (j : Nat) : Set Nat :=
  { i | Encloses ts i j }

/-- At this place stands a loop, with at least `limit` loops around it. -/
def TooDeep (limit : Nat) (ts : List Tag) (j : Nat) : Prop :=
  (∃ t, ts[j]? = some t ∧ t.role = .loop) ∧ limit ≤ (enclosing ts j).ncard

/-- What is said of a loop that stands too deep. -/
def nestingFault (limit line : Nat) : Failure :=
  .resourceExceeded ("loop nesting deeper than " ++ toString limit ++ " at line " ++ toString line)

/-! ### Loops and their ends -/

/-- Two places of a list, where different things stand: one is before the other. -/
theorem split_at_two {α : Type} {xs ys before after : List α} {u t : α} (hne : u ≠ t)
    (h : xs ++ u :: ys = before ++ t :: after) :
    (∃ c, xs = before ++ t :: c ∧ after = c ++ u :: ys) ∨ ∃ c, before = xs ++ u :: c ∧ ys = c ++ t :: after := by
  rcases List.append_eq_append_iff.1 h with ⟨c, rfl, hc⟩ | ⟨c, rfl, hc⟩
  · cases c with
    | nil => exact absurd (List.cons.inj hc).1 hne
    | cons a c =>
      obtain ⟨rfl, rfl⟩ := List.cons.inj hc
      exact .inr ⟨c, rfl, rfl⟩
  · cases c with
    | nil => exact absurd (List.cons.inj hc).1.symm hne
    | cons a c =>
      obtain ⟨rfl, rfl⟩ := List.cons.inj hc
      exact .inl ⟨c, rfl, rfl⟩

theorem Tag.ne_of_role {t u : Tag} {r r' : Role} (ht : t.role = r) (hu : u.role = r') (hne : r ≠ r') : t ≠ u := by
  rintro rfl
  exact hne (ht.symm.trans hu)

/-- A balanced list is cut off by the first end that it does not contain. -/
theorem Balanced.cut {b : List Tag} (h : Balanced b) {b' r r' : List Tag} {u u' : Tag} (h' : Balanced b')
    (hu : u.role = .endLoop) (hu' : u'.role = .endLoop) (heq : b ++ u :: r = b' ++ u' :: r') :
    b = b' ∧ u :: r = u' :: r' := by
  induction h generalizing b' u u' r r' with
  | nil =>
    cases h' with
    | nil => exact ⟨rfl, heq⟩
    | other hloop hend _ => exact absurd ((List.cons.inj heq).1 ▸ hu) hend
    | loop ht _ _ _ => exact absurd (List.cons.inj heq).1 (Tag.ne_of_role hu ht nofun)
  | other hloop hend _ ih =>
    cases h' with
    | nil => exact absurd ((List.cons.inj heq).1.symm ▸ hu') hend
    | other _ _ h' =>
      obtain ⟨rfl, htail⟩ := List.cons.inj heq
      obtain ⟨rfl, hrest⟩ := ih h' hu hu' htail
      exact ⟨rfl, hrest⟩
    | loop ht _ _ _ => exact absurd ((List.cons.inj heq).1.symm ▸ ht) hloop
  | loop ht hv _ _ ihbody ihrest =>
    cases h' with
    | nil => exact absurd (List.cons.inj heq).1 (Tag.ne_of_role ht hu' nofun)
    | other hloop _ _ => exact absurd ((List.cons.inj heq).1 ▸ ht) hloop
    | loop _ hv' hbody' hrest' =>
      simp only [List.cons_append, List.append_assoc] at heq
      obtain ⟨rfl, htail⟩ := List.cons.inj heq
      obtain ⟨rfl, hend⟩ := ihbody hbody' hv hv' htail
      obtain ⟨rfl, hrests⟩ := List.cons.inj hend
      obtain ⟨rfl, hrest⟩ := ihrest hrest' hu hu' hrests
      exact ⟨rfl, hrest⟩

/-- Every loop of a balanced list is ended in it. -/
theorem Balanced.matched {ts : List Tag} (h : Balanced ts) {before after : List Tag} {t : Tag}
    (hts : ts = before ++ t :: after) (ht : t.role = .loop) :
    ∃ body u rest, after = body ++ u :: rest ∧ Balanced body ∧ u.role = .endLoop := by
  induction h generalizing before after with
  | nil => cases before <;> cases hts
  | other hloop _ _ ih =>
    cases before with
    | nil => exact absurd ((List.cons.inj hts).1 ▸ ht) hloop
    | cons _ before => exact ih (List.cons.inj hts).2
  | @loop t' u body ts _ hu hbody _ ihbody ihrest =>
    cases before with
    | nil =>
      obtain ⟨rfl, rfl⟩ := List.cons.inj hts
      exact ⟨body, u, ts, rfl, hbody, hu⟩
    | cons _ before =>
      have hne : u ≠ t := Tag.ne_of_role hu ht nofun
      rcases split_at_two hne (List.cons.inj hts).2 with ⟨c, rfl, rfl⟩ | ⟨c, rfl, rfl⟩
      · obtain ⟨body', u', rest, rfl, hbody', hu'⟩ := ihbody rfl
        exact ⟨body', u', rest ++ u :: ts, by rw [List.append_assoc, List.cons_append], hbody', hu'⟩
      · exact ihrest rfl

/-- A loop of a balanced list reaches no further with more tags behind the list. -/
theorem Balanced.matched_of_append {ts more before after body : List Tag} {t u : Tag} (h : Balanced ts)
    (heq : ts ++ more = before ++ t :: (body ++ u :: after)) (ht : t.role = .loop) (hu : u.role = .endLoop)
    (hbody : Balanced body) (hlt : before.length < ts.length) :
    ∃ after', ts = before ++ t :: (body ++ u :: after') := by
  rcases List.append_eq_append_iff.1 heq with ⟨c, rfl, -⟩ | ⟨c, rfl, hc⟩
  · rw [List.length_append] at hlt
    omega
  · cases c with
    | nil =>
      rw [List.append_nil] at hlt
      omega
    | cons a c =>
      obtain ⟨rfl, htail⟩ := List.cons.inj hc
      obtain ⟨body', u', rest, rfl, hbody', hu'⟩ := h.matched rfl ht
      obtain ⟨rfl, hcut⟩ := hbody.cut hbody' hu hu' (htail.trans (List.append_assoc ..))
      obtain ⟨rfl, -⟩ := List.cons.inj hcut
      exact ⟨rest, rfl⟩

/-! ### The loops around a place -/

theorem Encloses.lt {ts : List Tag} {i j : Nat} (h : Encloses ts i j) : i < j := by
  obtain ⟨_, _, _, _, _, _, _, _, _, _, hlt, _⟩ := h
  exact hlt

theorem enclosing_finite (ts : List Tag) (j : Nat) : (enclosing ts j).Finite :=
  (Set.finite_lt_nat j).subset fun _ h => Encloses.lt h

theorem enclosing_zero (ts : List Tag) : enclosing ts 0 = ∅ :=
  Set.eq_empty_of_forall_notMem fun i hi => Nat.not_lt_zero i (Encloses.lt hi)

theorem encloses_append_left (pre ts : List Tag) (i j : Nat) :
    Encloses (pre ++ ts) (pre.length + i) (pre.length + j) ↔ Encloses ts i j := by
  constructor
  · rintro ⟨before, t, body, u, after, heq, ht, hu, hbody, hi, hij, hj⟩
    obtain ⟨c, rfl⟩ : pre <+: before := by
      refine List.prefix_of_prefix_length_le ⟨ts, rfl⟩ ⟨_, heq.symm⟩ ?_
      omega
    rw [List.append_assoc] at heq
    rw [List.length_append] at hi
    exact ⟨c, t, body, u, after, List.append_cancel_left heq, ht, hu, hbody, by omega, by omega, by omega⟩
  · rintro ⟨before, t, body, u, after, rfl, ht, hu, hbody, rfl, hij, hj⟩
    exact ⟨pre ++ before, t, body, u, after, (List.append_assoc ..).symm, ht, hu, hbody, List.length_append,
      by omega, by omega⟩

theorem ncard_shift (k : Nat) (places : Set Nat) : ((k + ·) '' places).ncard = places.ncard :=
  Set.ncard_image_of_injective places fun _ _ => Nat.add_left_cancel

/-- The loops of a balanced list end in it, so behind it only the loops of what follows count. -/
theorem Balanced.enclosing_append {pre : List Tag} (h : Balanced pre) (ts : List Tag) (j : Nat) :
    enclosing (pre ++ ts) (pre.length + j) = (pre.length + ·) '' enclosing ts j := by
  ext i
  constructor
  · intro hi
    by_cases hlt : i < pre.length
    · obtain ⟨before, t, body, u, after, heq, ht, hu, hbody, rfl, -, hj⟩ := hi
      obtain ⟨after', rfl⟩ := h.matched_of_append heq ht hu hbody hlt
      simp only [List.length_append, List.length_cons] at hj
      omega
    · obtain ⟨k, rfl⟩ := Nat.exists_eq_add_of_le (Nat.le_of_not_lt hlt)
      exact ⟨k, (encloses_append_left pre ts k j).1 hi, rfl⟩
  · rintro ⟨k, hk, rfl⟩
    exact (encloses_append_left pre ts k j).2 hk

/-- Inside a balanced list what follows it does not count. -/
theorem Balanced.encloses_append_right {ts : List Tag} (h : Balanced ts) (more : List Tag) {i j : Nat}
    (hj : j < ts.length) : Encloses (ts ++ more) i j ↔ Encloses ts i j := by
  constructor
  · rintro ⟨before, t, body, u, after, heq, ht, hu, hbody, rfl, hij, hle⟩
    obtain ⟨after', rfl⟩ := h.matched_of_append heq ht hu hbody (hij.trans hj)
    exact ⟨before, t, body, u, after', rfl, ht, hu, hbody, rfl, hij, hle⟩
  · rintro ⟨before, t, body, u, after, rfl, ht, hu, hbody, rfl, hij, hle⟩
    refine ⟨before, t, body, u, after ++ more, ?_, ht, hu, hbody, rfl, hij, hle⟩
    simp only [List.append_assoc, List.cons_append]

/-- In the body of a loop that loop counts, and the loops of the body. -/
theorem enclosing_body {t u : Tag} {body : List Tag} (ht : t.role = .loop) (hu : u.role = .endLoop)
    (hbody : Balanced body) (ts : List Tag) {j : Nat} (hj : j < body.length) :
    enclosing (t :: (body ++ u :: ts)) (1 + j) = insert 0 ((1 + ·) '' enclosing body j) := by
  have hshift : ∀ i, Encloses (t :: (body ++ u :: ts)) (1 + i) (1 + j) ↔ Encloses body i j := fun i =>
    (encloses_append_left [t] (body ++ u :: ts) i j).trans (hbody.encloses_append_right (u :: ts) hj)
  ext i
  constructor
  · intro hi
    cases i with
    | zero => exact .inl rfl
    | succ i => exact .inr ⟨i, (hshift i).1 (Nat.add_comm i 1 ▸ hi), Nat.add_comm 1 i⟩
  · rintro (rfl | ⟨i, hi, rfl⟩)
    · exact ⟨[], t, body, u, ts, rfl, ht, hu, hbody, rfl, by omega, by omega⟩
    · exact (hshift i).2 hi

/-! ### The count of open loops -/

/-- Open loops after one more tag. -/
def Role.openLoops (n : Nat) : Role → Nat
  | loop => n + 1
  | endLoop => n - 1
  | _ => n

/-- Open loops after tags, as the expansion counts them. -/
def openLoops (n : Nat) (ts : List Tag) : Nat :=
  ts.foldl (fun n t => t.role.openLoops n) n

theorem openLoops_append (n : Nat) (ts us : List Tag) : openLoops n (ts ++ us) = openLoops (openLoops n ts) us :=
  List.foldl_append

theorem openLoops_cons (n : Nat) (t : Tag) (ts : List Tag) :
    openLoops n (t :: ts) = openLoops (t.role.openLoops n) ts := rfl

theorem Role.openLoops_other {r : Role} (hloop : r ≠ .loop) (hend : r ≠ .endLoop) (n : Nat) : r.openLoops n = n := by
  cases r with
  | loop => exact absurd rfl hloop
  | endLoop => exact absurd rfl hend
  | directive => rfl
  | other => rfl

theorem Balanced.openLoops {ts : List Tag} (h : Balanced ts) (n : Nat) : openLoops n ts = n := by
  induction h generalizing n with
  | nil => rfl
  | other hloop hend _ ih => rw [openLoops_cons, Role.openLoops_other hloop hend, ih]
  | loop ht hu _ _ ihbody ihrest =>
    rw [openLoops_cons, openLoops_append, ihbody, openLoops_cons, ihrest, ht, hu]
    rfl

/-- The count at a loop is the number of loops around it. -/
theorem Balanced.openLoops_eq_ncard {ts : List Tag} (h : Balanced ts) {before after : List Tag} {t : Tag}
    (hts : ts = before ++ t :: after) (ht : t.role = .loop) (n : Nat) :
    Template.openLoops n before = n + (enclosing ts before.length).ncard := by
  induction h generalizing before after n with
  | nil => cases before <;> cases hts
  | @other t' ts hloop hend _ ih =>
    cases before with
    | nil => exact absurd ((List.cons.inj hts).1 ▸ ht) hloop
    | cons a before =>
      obtain ⟨rfl, htail⟩ := List.cons.inj hts
      have hpre : Balanced [t'] := .other hloop hend .nil
      have hset := hpre.enclosing_append ts before.length
      rw [openLoops_cons, Role.openLoops_other hloop hend, ih htail, List.length_cons, Nat.add_comm before.length]
      rw [show 1 + before.length = [t'].length + before.length from rfl, ← List.singleton_append, hset, ncard_shift]
  | @loop t' u body ts ht' hu hbody _ ihbody ihrest =>
    cases before with
    | nil =>
      rw [List.length_nil, enclosing_zero, Set.ncard_empty]
      rfl
    | cons a before =>
      obtain ⟨rfl, htail⟩ := List.cons.inj hts
      have hopen : t'.role.openLoops n = n + 1 := by rw [ht']; rfl
      rcases split_at_two (Tag.ne_of_role hu ht nofun) htail with ⟨c, rfl, rfl⟩ | ⟨c, rfl, rfl⟩
      · -- In the body the loop itself is one more.
        have hj : before.length < (before ++ t :: c).length := by
          rw [List.length_append, List.length_cons]
          omega
        have hnot : 0 ∉ (1 + ·) '' enclosing (before ++ t :: c) before.length := by
          rintro ⟨i, -, hi⟩
          exact absurd hi (by dsimp only; omega)
        rw [openLoops_cons, hopen, ihbody rfl, List.length_cons, Nat.add_comm before.length,
          enclosing_body ht' hu hbody ts hj,
          Set.ncard_insert_of_notMem hnot ((enclosing_finite _ _).image _),
          ncard_shift]
        omega
      · -- Behind its end it is closed.
        have hpre : Balanced (t' :: (body ++ [u])) := .loop ht' hu hbody .nil
        have hset := hpre.enclosing_append (c ++ t :: after) c.length
        have hlist : t' :: (body ++ [u]) ++ (c ++ t :: after) = t' :: (body ++ u :: (c ++ t :: after)) := by simp
        have hlength : (t' :: (body ++ [u])).length + c.length = (t' :: (body ++ u :: c)).length := by
          simp only [List.length_cons, List.length_append, List.length_nil]
          omega
        rw [hlist, hlength] at hset
        rw [openLoops_cons, hopen, openLoops_append, hbody.openLoops, openLoops_cons, hu, hset,
          ncard_shift]
        exact ihrest rfl n

/-! ### The expansion counts open loops -/

variable {p : SecurityPolicy} {registry : Option Component.Registry}

theorem map_nothing (r : Result (List Char)) : ([] ++ ·) <$> r = r := by
  cases r <;> rfl

/-- A piece that is no loop too deep and no bad directive is passed; what is written for it goes in front. -/
theorem expandPieces_step {q : Piece} {skip : Nat} {e : Expansion} (rest : List Piece)
    (hshallow : ∀ t, q = .tag t → t.role = .loop → e.loops < p.maxDepth)
    (hparse : ∀ t, q = .tag t → t.role = .directive → ∃ d, Directive.parse t.args = .ok d) :
    ∃ written skip' e', e'.loops = openLoops e.loops (tagsOf [q]) ∧ e'.line = e.line + lineEnds q.source ∧
      expandPieces p registry (q :: rest) skip e = (written ++ ·) <$> expandPieces p registry rest skip' e' := by
  cases q with
  | char c =>
    cases skip with
    | zero => exact ⟨[], 0, e.copy [c], rfl, rfl, (map_nothing _).symm⟩
    | succ skip =>
      exact ⟨[], skip, { e with line := e.line + lineEnds [c], atLineStart := c == '\n' }, rfl, rfl, (map_nothing _).symm⟩
  | hidden cs =>
    refine ⟨[], 0, e.copy cs, rfl, rfl, ?_⟩
    rw [expandPieces]
    exact (map_nothing _).symm
  | tag t =>
    have hloops : openLoops e.loops (tagsOf [.tag t]) = t.role.openLoops e.loops := rfl
    rw [hloops]
    cases hrole : t.role with
    | loop =>
      have hlt : e.loops < p.maxDepth := hshallow t rfl hrole
      refine ⟨e.pending.reverse ++ (t.source ++ Expansion.tick t.trail), 0,
        { e.afterTag t with loops := e.loops + 1 }, rfl, rfl, ?_⟩
      rw [expandPieces, hrole]
      dsimp only
      rw [if_neg (Nat.not_lt.2 hlt), ← map_eq_pure_bind]
      simp only [List.append_assoc]
    | endLoop =>
      refine ⟨[], 0, { e.copy t.source with loops := e.loops - 1 }, rfl, rfl, ?_⟩
      rw [expandPieces, hrole]
      exact (map_nothing _).symm
    | directive =>
      obtain ⟨d, hd⟩ := hparse t rfl hrole
      refine ⟨e.before t.lead ++ (d.replacement p registry).source, Expansion.droppedAfter t.trail (leadingText rest),
        e.afterTag t, rfl, rfl, ?_⟩
      rw [expandPieces, hrole]
      dsimp only
      rw [hd]
      dsimp only
      rw [← map_eq_pure_bind]
      simp only [List.append_assoc]
    | other =>
      refine ⟨[], 0, e.copy t.source, rfl, rfl, ?_⟩
      rw [expandPieces, hrole]
      exact (map_nothing _).symm

/-- Pieces with no loop too deep and no bad directive are passed; what is written for them goes in front. -/
theorem expandPieces_passes {ps : List Piece} {skip : Nat} {e : Expansion} (after : List Piece)
    (hshallow : ∀ u t v, ps = u ++ .tag t :: v → t.role = .loop → openLoops e.loops (tagsOf u) < p.maxDepth)
    (hparse : ∀ t, .tag t ∈ ps → t.role = .directive → ∃ d, Directive.parse t.args = .ok d) :
    ∃ written skip' e', e'.loops = openLoops e.loops (tagsOf ps) ∧
      e'.line = e.line + lineEnds (ps.flatMap Piece.source) ∧
      expandPieces p registry (ps ++ after) skip e = (written ++ ·) <$> expandPieces p registry after skip' e' := by
  induction ps generalizing skip e with
  | nil => exact ⟨[], skip, e, rfl, rfl, (map_nothing _).symm⟩
  | cons q ps ih =>
    have htags : ∀ u, tagsOf (q :: u) = tagsOf [q] ++ tagsOf u := fun u => List.filterMap_append (l := [q])
    obtain ⟨first, skip₁, e₁, hloops, hline, hstep⟩ := @expandPieces_step p registry q skip e (ps ++ after)
      (fun t ht => hshallow [] t ps (by rw [ht]; rfl))
      (fun t ht => hparse t (ht ▸ List.mem_cons_self))
    have hshallow' : ∀ u t v, ps = u ++ .tag t :: v → t.role = .loop → openLoops e₁.loops (tagsOf u) < p.maxDepth := by
      intro u t v hps ht
      have h := hshallow (q :: u) t v (by rw [hps]; rfl) ht
      rwa [htags, openLoops_append, ← hloops] at h
    obtain ⟨written, skip', e', hloops', hline', hrest⟩ :=
      @ih skip₁ e₁ hshallow' fun t ht => hparse t (List.mem_cons_of_mem _ ht)
    refine ⟨first ++ written, skip', e', ?_, ?_, ?_⟩
    · rw [hloops', hloops, htags ps, openLoops_append]
    · rw [hline', hline, lineEnds_source_cons, Nat.add_assoc]
    · rw [List.cons_append, hstep, hrest]
      cases expandPieces p registry after skip' e' with
      | error x => rfl
      | ok out => exact congrArg Except.ok (List.append_assoc ..).symm

/-! ### Refused exactly for loops too deep -/

theorem tagsOf_append (ps qs : List Piece) : tagsOf (ps ++ qs) = tagsOf ps ++ tagsOf qs :=
  List.filterMap_append

/-- Every tag in the list stands somewhere among the pieces. -/
theorem exists_piece_of_tag {ps : List Piece} {j : Nat} {t : Tag} (h : (tagsOf ps)[j]? = some t) :
    ∃ before after, ps = before ++ .tag t :: after ∧ (tagsOf before).length = j := by
  induction ps generalizing j with
  | nil => cases h
  | cons q ps ih =>
    cases q with
    | char c =>
      obtain ⟨before, after, rfl, hj⟩ := ih h
      exact ⟨.char c :: before, after, rfl, hj⟩
    | hidden cs =>
      obtain ⟨before, after, rfl, hj⟩ := ih h
      exact ⟨.hidden cs :: before, after, rfl, hj⟩
    | tag u =>
      cases j with
      | zero =>
        cases h
        exact ⟨[], ps, rfl, rfl⟩
      | succ j =>
        obtain ⟨before, after, rfl, hj⟩ := ih h
        exact ⟨.tag u :: before, after, rfl, congrArg Nat.succ hj⟩

theorem mem_tagsOf {ps : List Piece} {t : Tag} (h : .tag t ∈ ps) : t ∈ tagsOf ps :=
  List.mem_filterMap.2 ⟨.tag t, h, rfl⟩

/-- A loop is too deep where the count says so. -/
theorem tooDeep_iff {before after : List Piece} {t : Tag} {limit : Nat}
    (h : Balanced (tagsOf (before ++ .tag t :: after))) (ht : t.role = .loop) :
    TooDeep limit (tagsOf (before ++ .tag t :: after)) (tagsOf before).length ↔
      limit ≤ openLoops 0 (tagsOf before) := by
  have htags : tagsOf (before ++ .tag t :: after) = tagsOf before ++ t :: tagsOf after := tagsOf_append ..
  have hat : (tagsOf (before ++ .tag t :: after))[(tagsOf before).length]? = some t := by
    rw [htags, List.getElem?_append_right (Nat.le_refl _), Nat.sub_self]
    rfl
  rw [h.openLoops_eq_ncard htags ht 0, Nat.zero_add]
  exact ⟨fun h => h.2, fun h => ⟨⟨t, hat, ht⟩, h⟩⟩

section Refused

variable {s : List Char} {ps : List Piece}

/-- The first loop that stands too deep is what a source is refused for. -/
theorem expand_refuses (hscan : scan s = .ok ps) (hbalanced : Balanced (tagsOf ps))
    (hparse : ∀ t ∈ tagsOf ps, t.role = .directive → ∃ d, Directive.parse t.args = .ok d)
    {before after : List Piece} {t : Tag} (hps : ps = before ++ .tag t :: after)
    (hfirst : IsLeast { j | TooDeep p.maxDepth (tagsOf ps) j } (tagsOf before).length) :
    expand p registry s = .error (nestingFault p.maxDepth (1 + lineEnds (before.flatMap Piece.source))) := by
  subst hps
  obtain ⟨⟨⟨t', ht', hloop⟩, hdeep⟩, hleast⟩ := hfirst
  have htags : tagsOf (before ++ .tag t :: after) = tagsOf before ++ t :: tagsOf after := tagsOf_append ..
  obtain rfl : t = t' := by
    rw [htags, List.getElem?_append_right (Nat.le_refl _), Nat.sub_self] at ht'
    exact Option.some.inj ht'
  have hshallow : ∀ u t v, before = u ++ .tag t :: v → t.role = .loop →
      openLoops 0 (tagsOf u) < p.maxDepth := by
    rintro u t' v rfl ht'
    by_contra hge
    rw [List.append_assoc, List.cons_append] at hbalanced hleast
    have := hleast ((tooDeep_iff hbalanced ht').2 (Nat.le_of_not_lt hge))
    rw [tagsOf_append, List.length_append] at this
    exact absurd this (Nat.not_le.2 (Nat.lt_add_of_pos_right (Nat.succ_pos _)))
  obtain ⟨written, skip, e, hloops, hline, hpass⟩ :=
    @expandPieces_passes p registry before 0 {} (.tag t :: after) hshallow
      fun t ht => hparse t (mem_tagsOf (List.mem_append_left _ ht))
  have hover : p.maxDepth < e.loops + 1 := by
    rw [hloops, Nat.lt_succ_iff]
    exact (tooDeep_iff hbalanced hloop).1 ⟨⟨t, ht', hloop⟩, hdeep⟩
  unfold expand
  rw [hscan]
  change expandPieces p registry (before ++ .tag t :: after) 0 {} = _
  rw [hpass, expandPieces, hloop]
  dsimp only
  rw [if_pos hover, hline]
  rfl

theorem expand_accepts (hscan : scan s = .ok ps) (hbalanced : Balanced (tagsOf ps))
    (hparse : ∀ t ∈ tagsOf ps, t.role = .directive → ∃ d, Directive.parse t.args = .ok d)
    (hnone : ¬ ∃ j, TooDeep p.maxDepth (tagsOf ps) j) : ∃ out, expand p registry s = .ok out := by
  have hshallow : ∀ u t v, ps = u ++ .tag t :: v → t.role = .loop → openLoops 0 (tagsOf u) < p.maxDepth := by
    rintro u t v rfl ht
    by_contra hge
    exact hnone ⟨_, (tooDeep_iff hbalanced ht).2 (Nat.le_of_not_lt hge)⟩
  obtain ⟨written, skip, e, -, -, hpass⟩ :=
    @expandPieces_passes p registry ps 0 {} [] hshallow fun t ht => hparse t (mem_tagsOf ht)
  refine ⟨written ++ e.pending.reverse, ?_⟩
  unfold expand
  rw [hscan]
  change expandPieces p registry ps 0 {} = _
  rw [List.append_nil] at hpass
  rw [hpass, expandPieces]
  rfl

/-- Where loops are ended and directives can be read, a source is refused for its nesting exactly if a loop stands
inside too many others, with the line of the first such loop; otherwise it is expanded. -/
theorem expand_nesting (hscan : scan s = .ok ps) (hbalanced : Balanced (tagsOf ps))
    (hparse : ∀ t ∈ tagsOf ps, t.role = .directive → ∃ d, Directive.parse t.args = .ok d) :
    ((∃ line, expand p registry s = .error (nestingFault p.maxDepth line)) ↔
      ∃ j, TooDeep p.maxDepth (tagsOf ps) j) ∧
    (∀ before t after, ps = before ++ .tag t :: after →
      IsLeast { j | TooDeep p.maxDepth (tagsOf ps) j } (tagsOf before).length →
      expand p registry s = .error (nestingFault p.maxDepth (1 + lineEnds (before.flatMap Piece.source)))) ∧
    ((¬ ∃ j, TooDeep p.maxDepth (tagsOf ps) j) → ∃ out, expand p registry s = .ok out) := by
  refine ⟨⟨?_, ?_⟩, fun before t after => expand_refuses hscan hbalanced hparse, expand_accepts hscan hbalanced hparse⟩
  · rintro ⟨line, hrefused⟩
    by_contra hnone
    obtain ⟨out, hout⟩ : ∃ out, expand p registry s = .ok out := expand_accepts hscan hbalanced hparse hnone
    rw [hrefused] at hout
    cases hout
  · intro hsome
    classical
    have hfirst : IsLeast { j | TooDeep p.maxDepth (tagsOf ps) j } (Nat.find hsome) :=
      ⟨Nat.find_spec hsome, fun j hj => Nat.find_min' hsome hj⟩
    obtain ⟨⟨t, ht, -⟩, -⟩ := Nat.find_spec hsome
    obtain ⟨before, after, hps, hj⟩ := exists_piece_of_tag ht
    exact ⟨_, expand_refuses hscan hbalanced hparse hps (hj ▸ hfirst)⟩

end Refused

/-- Allows everything but a loop in a loop. -/
def oneLoopPolicy : SecurityPolicy :=
  { components := .allowAll, roots := .compile [], bindingPath := .empty, maxDepth := 1, maxIterations := 1 }

/-- Pieces of a loop, and on the second line of another one in it. -/
def loopInLoop : List Piece :=
  [.tag ⟨.block, .none, " for a in xs ".toList, .none⟩, .char '\n',
    .tag ⟨.block, .none, " for b in a ".toList, .none⟩, .tag ⟨.block, .none, " endfor ".toList, .none⟩,
    .tag ⟨.block, .none, " endfor ".toList, .none⟩]

/-- The inner loop is refused, on its own line. -/
theorem expand_nesting_second_line :
    scan (loopInLoop.flatMap Piece.source) = .ok loopInLoop ∧ Balanced (tagsOf loopInLoop) ∧
      expand oneLoopPolicy none (loopInLoop.flatMap Piece.source) = .error (nestingFault 1 2) := by
  have hscan : scan (loopInLoop.flatMap Piece.source) = .ok loopInLoop := by
    have h : (scan (loopInLoop.flatMap Piece.source)).toOption = some loopInLoop := by decide +kernel
    cases hs : scan (loopInLoop.flatMap Piece.source) with
    | error x =>
      rw [hs] at h
      cases h
    | ok ps =>
      rw [hs] at h
      exact congrArg Except.ok (Option.some.inj h)
  have hbalanced : Balanced (tagsOf loopInLoop) :=
    @Balanced.loop _ _ [_, _] _ (by decide) (by decide) (.loop (by decide) (by decide) .nil .nil) .nil
  have hparse : ∀ t ∈ tagsOf loopInLoop, t.role = .directive → ∃ d, Directive.parse t.args = .ok d := by
    intro t ht hrole
    have hnone : ∀ t ∈ tagsOf loopInLoop, t.role ≠ .directive := by decide
    exact absurd hrole (hnone t ht)
  have hinner : (enclosing (tagsOf loopInLoop) 1).ncard = 1 := by
    have hopen : openLoops 0 ((tagsOf loopInLoop).take 1) = 0 + (enclosing (tagsOf loopInLoop) 1).ncard :=
      hbalanced.openLoops_eq_ncard rfl (by decide) 0
    rw [← Nat.zero_add (Set.ncard _), ← hopen]
    decide
  have hfirst : IsLeast { j | TooDeep oneLoopPolicy.maxDepth (tagsOf loopInLoop) j } 1 := by
    refine ⟨⟨⟨_, rfl, by decide⟩, Nat.le_of_eq hinner.symm⟩, fun j hj => Nat.one_le_iff_ne_zero.2 ?_⟩
    rintro rfl
    have hdeep : 1 ≤ (enclosing (tagsOf loopInLoop) 0).ncard := hj.2
    rw [enclosing_zero, Set.ncard_empty] at hdeep
    exact absurd hdeep (by decide)
  exact ⟨hscan, hbalanced,
    (expand_nesting hscan hbalanced hparse).2.1 (loopInLoop.take 2) _ (loopInLoop.drop 3) rfl hfirst⟩

end SecureLayout.Template
