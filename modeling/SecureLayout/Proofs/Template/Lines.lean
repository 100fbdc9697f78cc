import SecureLayout.Proofs.Template.Expanded

/-!
Lines of a layout source and of what is compiled in its place. Main statements: a fault that is found before
compiling names the author's line; and a stretch that is copied is found on the author's line exactly if the
directives before it took as many line ends along as their replacements brought.
-/

namespace SecureLayout.Template

variable {p : SecurityPolicy} {registry : Option Component.Registry} {x : Failure}

theorem lineEnds_append (s t : List Char) : lineEnds (s ++ t) = lineEnds s + lineEnds t :=
  List.count_append

theorem lineEnds_source_cons (q : Piece) (ps : List Piece) :
    lineEnds ((q :: ps).flatMap Piece.source) = lineEnds q.source + lineEnds (ps.flatMap Piece.source) := by
  rw [List.flatMap_cons, lineEnds_append]

/-! ### Faults before compiling -/

/-- A piece that does not end is a fault on the line where it begins. -/
theorem piece_fault {line : Nat} {c : Char} {s : List Char} (h : piece line c s = .error x) :
    c = '\x7b' ∧ ∃ message, x = .badSyntax message (some line) := by
  unfold piece at h
  split at h
  · split at h
    · cases h
    · cases h
      exact ⟨rfl, _, rfl⟩
  · split at h
    · cases h
    · split at h
      · cases h
        exact ⟨rfl, _, rfl⟩
      · split at h
        · cases h
          exact ⟨rfl, _, rfl⟩
        · split at h
          · split at h
            · cases h
            · cases h
              exact ⟨rfl, _, rfl⟩
          · cases h
  · cases h

theorem scanFrom_fault {line : Nat} {s : List Char} (h : scanFrom line s = .error x) :
    ∃ u v message, s = u ++ '\x7b' :: v ∧ x = .badSyntax message (some (line + lineEnds u)) := by
  fun_induction scanFrom line s with
  | case1 => cases h
  | case2 line c s e hp =>
    cases h
    obtain ⟨rfl, message, rfl⟩ := piece_fault hp
    exact ⟨[], s, message, rfl, rfl⟩
  | case3 line c s ps rest hp _ e hm ih =>
    cases h
    obtain ⟨u, v, message, rfl, rfl⟩ := ih hm
    refine ⟨ps.flatMap Piece.source ++ u, v, message, ?_, ?_⟩
    · rw [piece_source hp, List.append_assoc]
    · rw [lineEnds_append, Nat.add_assoc]
  | case4 => cases h

/-- What the expansion complains of at a tag on a line. -/
inductive Complaint (p : SecurityPolicy) (t : Tag) (line : Nat) : Failure → Prop
  | directive {message : String} : t.role = .directive → Directive.parse t.args = .error message →
      Complaint p t line (.badSyntax message (some line))
  | loop : t.role = .loop → Complaint p t line
      (.resourceExceeded ("loop nesting deeper than " ++ toString p.maxDepth ++ " at line " ++ toString line))

/-- Writing a result down cannot fail. -/
theorem error_of_bind {α β : Type} {r : Result α} {f : α → β} (h : (r >>= fun y => pure (f y)) = .error x) :
    r = .error x := by
  cases r with
  | error e =>
    cases h
    rfl
  | ok y => cases h

/-- A fault of the expansion is the fault of a tag, and counts the lines of all pieces before it. -/
theorem expandPieces_fault {ps : List Piece} {skip : Nat} {e : Expansion}
    (h : expandPieces p registry ps skip e = .error x) :
    ∃ before t after, ps = before ++ .tag t :: after ∧
      Complaint p t (e.line + lineEnds (before.flatMap Piece.source)) x := by
  induction ps generalizing skip e with
  | nil => cases h
  | cons q ps ih =>
    -- What is passed over adds its own lines.
    have hstep : ∀ {skip' : Nat} {e' : Expansion}, e'.line = e.line + lineEnds q.source →
        expandPieces p registry ps skip' e' = .error x →
        ∃ before t after, q :: ps = before ++ .tag t :: after ∧
          Complaint p t (e.line + lineEnds (before.flatMap Piece.source)) x := by
      intro skip' e' hline h
      obtain ⟨before, t, after, rfl, hcomplaint⟩ := ih h
      refine ⟨q :: before, t, after, rfl, ?_⟩
      rwa [lineEnds_source_cons, ← Nat.add_assoc, ← hline]
    cases q with
    | char c =>
      cases skip with
      | zero => exact hstep rfl h
      | succ skip => exact hstep rfl h
    | hidden cs =>
      rw [expandPieces] at h
      exact hstep rfl h
    | tag t =>
      rw [expandPieces] at h
      cases hrole : t.role with
      | loop =>
        rw [hrole] at h
        dsimp only at h
        split at h
        · cases h
          exact ⟨[], t, ps, rfl, .loop hrole⟩
        · exact hstep rfl (error_of_bind h)
      | endLoop =>
        rw [hrole] at h
        exact hstep rfl h
      | directive =>
        rw [hrole] at h
        dsimp only at h
        split at h
        · next hparse =>
          cases h
          exact ⟨[], t, ps, rfl, .directive hrole hparse⟩
        · exact hstep rfl (error_of_bind h)
      | other =>
        rw [hrole] at h
        exact hstep rfl h

/-- Whatever is found wrong before compiling names the line that the author's source has reached there. -/
theorem expand_fault {s : List Char} (h : expand p registry s = .error x) :
    (∃ u v message, s = u ++ '\x7b' :: v ∧ x = .badSyntax message (some (1 + lineEnds u))) ∨
      ∃ u t v, s = u ++ (t.source ++ v) ∧ Complaint p t (1 + lineEnds u) x := by
  unfold expand at h
  cases hscan : scan s with
  | error e =>
    rw [hscan] at h
    cases h
    exact .inl (scanFrom_fault hscan)
  | ok ps =>
    rw [hscan] at h
    change expandPieces p registry ps 0 {} = .error x at h
    obtain ⟨before, t, after, rfl, hcomplaint⟩ := expandPieces_fault h
    refine .inr ⟨before.flatMap Piece.source, t, after.flatMap Piece.source, ?_, hcomplaint⟩
    rw [← scanFrom_source hscan, List.flatMap_append, List.flatMap_cons]
    rfl

/-! ### Stretches -/

/-- A part of a layout source, and what is compiled in its place. -/
inductive Stretch where
  | copied (s : List Char)
  /-- The tick behind the tag of a loop. -/
  | ticked (trail : Mark)
  /-- A directive with blanks that it takes along. -/
  | replaced (before : List Char) (t : Tag) (after : List Char) (text : List Char)

namespace Stretch

def source : Stretch → List Char
  | copied s => s
  | ticked _ => []
  | replaced before t after _ => before ++ (t.source ++ after)

def text : Stretch → List Char
  | copied s => s
  | ticked trail => Expansion.tick trail
  | replaced _ _ _ text => text

/-- Only directives are replaced, and only blanks go with them. -/
def Fits (ps : List Piece) : Stretch → Prop
  | replaced before t after _ => .tag t ∈ ps ∧ t.role = .directive ∧ Blanks before ∧ Blanks after
  | _ => True

theorem Fits.cons {ps : List Piece} {st : Stretch} (h : st.Fits ps) (q : Piece) : st.Fits (q :: ps) := by
  cases st with
  | replaced before t after text => exact ⟨List.mem_cons_of_mem _ h.1, h.2⟩
  | copied s => trivial
  | ticked trail => trivial

end Stretch

theorem leadingText_begins (ps : List Piece) : leadingText ps <+: ps.flatMap Piece.source := by
  induction ps with
  | nil => exact List.nil_prefix
  | cons q ps ih =>
    cases q with
    | char c => exact (List.prefix_cons_inj c).2 ih
    | hidden cs => exact List.nil_prefix
    | tag t => exact List.nil_prefix

theorem blanks_reverse {b : List Char} (hb : Blanks b) : Blanks b.reverse :=
  fun c hc => hb c (List.mem_reverse.1 hc)

/-- Pieces fall into stretches behind the text that is held; `skip` counts what went with the directive before. -/
theorem expandPieces_stretches {ps : List Piece} {skip : Nat} {e : Expansion} {out : List Char}
    (hskip : skip ≤ (leadingText ps).length) (h : expandPieces p registry ps skip e = .ok out) :
    ∃ sts : List Stretch, (∀ st ∈ sts, st.Fits ps) ∧
      e.pending.reverse ++ (ps.flatMap Piece.source).drop skip = sts.flatMap Stretch.source ∧
      out = sts.flatMap Stretch.text := by
  induction ps generalizing skip e out with
  | nil =>
    cases h
    exact ⟨[.copied e.pending.reverse], by simp [Stretch.Fits], by simp [Stretch.source], by simp [Stretch.text]⟩
  | cons q ps ih =>
    have hcons : ∀ {sts : List Stretch}, (∀ st ∈ sts, st.Fits ps) → ∀ st ∈ sts, st.Fits (q :: ps) :=
      fun hfits st hst => (hfits st hst).cons q
    cases q with
    | char c =>
      cases skip with
      | zero =>
        obtain ⟨sts, hfits, hsource, hout⟩ := ih (Nat.zero_le _) h
        refine ⟨sts, hcons hfits, ?_, hout⟩
        rw [← hsource]
        simp [Expansion.copy, Piece.source]
      | succ skip =>
        rw [expandPieces] at h
        obtain ⟨sts, hfits, hsource, hout⟩ := ih (Nat.le_of_succ_le_succ hskip) h
        exact ⟨sts, hcons hfits, hsource, hout⟩
    | hidden cs =>
      obtain rfl : skip = 0 := Nat.le_zero.1 hskip
      rw [expandPieces] at h
      obtain ⟨sts, hfits, hsource, hout⟩ := ih (Nat.zero_le _) h
      refine ⟨sts, hcons hfits, ?_, hout⟩
      rw [← hsource]
      simp [Expansion.copy, Piece.source]
    | tag t =>
      obtain rfl : skip = 0 := Nat.le_zero.1 hskip
      have hcopy : ∀ {e' : Expansion}, e'.pending = t.source.reverse ++ e.pending →
          expandPieces p registry ps 0 e' = .ok out → ∃ sts : List Stretch, (∀ st ∈ sts, st.Fits (.tag t :: ps)) ∧
            e.pending.reverse ++ ((Piece.tag t :: ps).flatMap Piece.source).drop 0 = sts.flatMap Stretch.source ∧
            out = sts.flatMap Stretch.text := by
        intro e' hpending h
        obtain ⟨sts, hfits, hsource, hout⟩ := ih (Nat.zero_le _) h
        refine ⟨sts, hcons hfits, ?_, hout⟩
        rw [← hsource, hpending]
        simp [Piece.source]
      rw [expandPieces] at h
      cases hrole : t.role with
      | other =>
        rw [hrole] at h
        exact hcopy rfl h
      | endLoop =>
        rw [hrole] at h
        exact hcopy rfl h
      | loop =>
        rw [hrole] at h
        dsimp only at h
        split at h
        · cases h
        · obtain ⟨after, hafter, hout⟩ := result_of_bind h
          cases hout
          obtain ⟨sts, hfits, hsource, rfl⟩ := ih (Nat.zero_le _) hafter
          refine ⟨.copied (e.pending.reverse ++ t.source) :: .ticked t.trail :: sts, ?_, ?_, ?_⟩
          · exact List.forall_mem_cons.2 ⟨trivial, List.forall_mem_cons.2 ⟨trivial, hcons hfits⟩⟩
          · simp only [List.flatMap_cons, ← hsource]
            simp [Stretch.source, Piece.source, Expansion.afterTag]
          · simp [Stretch.text]
      | directive =>
        rw [hrole] at h
        dsimp only at h
        split at h
        · cases h
        · next d hparse =>
          obtain ⟨after, hafter, hout⟩ := result_of_bind h
          cases hout
          obtain ⟨b', u', hlead, hb', hlength⟩ := Expansion.droppedAfter_drops t.trail (leadingText ps)
          obtain ⟨b, u, hpending, hb, hbefore⟩ := Expansion.before_drops e t.lead
          rw [hlength] at hafter
          have hle : b'.length ≤ (leadingText ps).length := by
            rw [hlead, List.length_append]
            exact Nat.le_add_right _ _
          obtain ⟨sts, hfits, hsource, rfl⟩ := ih hle hafter
          have hrest : b' ++ (ps.flatMap Piece.source).drop b'.length = ps.flatMap Piece.source := by
            obtain ⟨v, hv⟩ := leadingText_begins ps
            rw [← hv, hlead, List.append_assoc, List.drop_left]
          refine ⟨.copied u.reverse :: .replaced b.reverse t b' (d.replacement p registry).source :: sts, ?_, ?_, ?_⟩
          · refine List.forall_mem_cons.2 ⟨trivial, List.forall_mem_cons.2 ⟨?_, hcons hfits⟩⟩
            exact ⟨List.mem_cons_self, hrole, blanks_reverse hb, hb'⟩
          · simp only [List.flatMap_cons, ← hsource, hpending, Stretch.source, Piece.source, Expansion.afterTag,
              List.reverse_append, List.append_assoc, List.reverse_nil, List.nil_append, List.drop_zero, hrest]
          · simp [Stretch.text, hbefore]

/-! ### Lines of what is compiled -/

namespace Stretch

/-- Line ends that went with a directive. -/
def lost : Stretch → Nat
  | replaced before t after _ => lineEnds (before ++ (t.source ++ after))
  | _ => 0

/-- Line ends that came with what stands for a directive. -/
def brought : Stretch → Nat
  | replaced _ _ _ text => lineEnds text
  | _ => 0

theorem lineEnds_tick (m : Mark) : lineEnds (Expansion.tick m) = 0 := by
  cases m <;> decide +kernel

theorem lineEnds_balance (st : Stretch) : lineEnds st.text + st.lost = lineEnds st.source + st.brought := by
  cases st with
  | copied s => rfl
  | ticked trail => exact lineEnds_tick trail
  | replaced before t after text => exact Nat.add_comm _ _

theorem lineEnds_flatMap_balance (sts : List Stretch) :
    lineEnds (sts.flatMap text) + (sts.map lost).sum = lineEnds (sts.flatMap source) + (sts.map brought).sum := by
  induction sts with
  | nil => rfl
  | cons st sts ih =>
    have hst := st.lineEnds_balance
    simp only [List.flatMap_cons, List.map_cons, List.sum_cons, lineEnds_append]
    omega

end Stretch

/-- Where a copied text goes on, the compiler counts the author's lines exactly if as many line ends went with the
directives before it as came with their replacements. -/
theorem expand_lines {s out : List Char} (h : expand p registry s = .ok out) :
    ∃ ps sts, scan s = .ok ps ∧ (∀ st ∈ sts, Stretch.Fits ps st) ∧ s = sts.flatMap Stretch.source ∧
      out = sts.flatMap Stretch.text ∧ ∀ before u v after, sts = before ++ .copied (u ++ v) :: after →
        (lineEnds (before.flatMap Stretch.text ++ u) = lineEnds (before.flatMap Stretch.source ++ u) ↔
          (before.map Stretch.lost).sum = (before.map Stretch.brought).sum) := by
  obtain ⟨ps, hscan, hpieces⟩ := result_of_bind h
  obtain ⟨sts, hfits, hsource, hout⟩ := expandPieces_stretches (Nat.zero_le _) hpieces
  have hs : s = sts.flatMap Stretch.source := by
    rw [← hsource, ← scanFrom_source hscan]
    rfl
  refine ⟨ps, sts, hscan, hfits, hs, hout, fun before u v after _ => ?_⟩
  have hbalance := Stretch.lineEnds_flatMap_balance before
  rw [lineEnds_append, lineEnds_append]
  omega

/-- Ticks alone move nothing: without directives every line is the author's. -/
theorem expand_lines_of_no_directive {s out : List Char} (h : expand p registry s = .ok out)
    (hnone : ∀ ps, scan s = .ok ps → ∀ t, .tag t ∈ ps → t.role ≠ .directive) :
    ∃ sts : List Stretch, (∀ st ∈ sts, (∃ u, st = .copied u) ∨ ∃ m, st = .ticked m) ∧
      s = sts.flatMap Stretch.source ∧ out = sts.flatMap Stretch.text ∧
      ∀ before after, sts = before ++ after →
        lineEnds (before.flatMap Stretch.text) = lineEnds (before.flatMap Stretch.source) := by
  obtain ⟨ps, sts, hscan, hfits, hs, hout, -⟩ := expand_lines h
  have hplain : ∀ st ∈ sts, (∃ u, st = .copied u) ∨ ∃ m, st = .ticked m := by
    intro st hst
    cases st with
    | copied u => exact .inl ⟨u, rfl⟩
    | ticked m => exact .inr ⟨m, rfl⟩
    | replaced b t b' text =>
      obtain ⟨hmem, hrole, -⟩ := hfits _ hst
      exact absurd hrole (hnone ps hscan t hmem)
  refine ⟨sts, hplain, hs, hout, fun before after hsts => ?_⟩
  have hkept : ∀ st ∈ before, lineEnds st.text = lineEnds st.source := by
    intro st hst
    rcases hplain st (hsts ▸ List.mem_append_left _ hst) with ⟨u, rfl⟩ | ⟨m, rfl⟩
    · rfl
    · exact Stretch.lineEnds_tick m
  clear hsts
  induction before with
  | nil => rfl
  | cons st before ih =>
    obtain ⟨hfirst, hrest⟩ := List.forall_mem_cons.1 hkept
    rw [List.flatMap_cons, List.flatMap_cons, lineEnds_append, lineEnds_append, hfirst, ih hrest]

end SecureLayout.Template
