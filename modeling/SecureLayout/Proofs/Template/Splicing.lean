import SecureLayout.Proofs.Template.Nesting
import SecureLayout.Proofs.Template.Sighting
import SecureLayout.Proofs.Template.Trimming

/-!
The expansion over places of a source: stretches are cut out of it, and replacements put between them. Main statement:
no source, policy or registry makes it cut at a place that is not there, inside a character or before the place it has
come to; it ends, and answers as the expansion of characters does.
-/

namespace SecureLayout.Template

open Text (byteLength slice? findLast?)

variable {p : SecurityPolicy} {registry : Option Component.Registry} {s u v w src : List Char}

/-! ### Directives -/

/-- The text between the quotes of a word, if it is a quoted one. -/
def unquotedAt (word : List Char) : Option (Option (List Char)) :=
  match word.head? with
  | none => some none
  | some q =>
    if (q = '"' || q = '\'') && 2 ≤ byteLength word && word.getLast? = some q then do
      let text ← slice? word 1 (byteLength word - 1)
      some (some text)
    else some none

theorem unquotedAt_eq (word : List Char) : unquotedAt word = some (Directive.unquoted? word) := by
  cases word with
  | nil => rfl
  | cons q r =>
    cases r with
    | nil =>
      have hshort : ¬ ((q = '"' || q = '\'') && 2 ≤ byteLength [q] && [q].getLast? = some q) = true := by
        intro h
        simp only [Bool.and_eq_true, Bool.or_eq_true, decide_eq_true_eq] at h
        rcases h with ⟨⟨rfl | rfl, hlong⟩, -⟩
        · exact absurd hlong (by decide)
        · exact absurd hlong (by decide)
      exact if_neg hshort
    | cons c r =>
      have hlong : 2 ≤ byteLength (q :: c :: r) := by
        have hq := q.utf8Size_pos
        have hc := c.utf8Size_pos
        rw [Text.byteLength_cons, Text.byteLength_cons]
        omega
      have hlast : (q :: c :: r).getLast? = (c :: r).getLast? := rfl
      unfold unquotedAt Directive.unquoted?
      simp only [List.head?_cons, hlong, hlast, decide_true, Bool.and_true]
      split
      · next h =>
        simp only [Bool.and_eq_true, Bool.or_eq_true, decide_eq_true_eq] at h
        obtain ⟨hq, hl⟩ := h
        have hsplit : q :: c :: r = [q] ++ ((c :: r).dropLast ++ [q]) := by
          rw [List.dropLast_append_getLast? q hl]
          rfl
        have hsize : byteLength [q] = 1 := by
          rcases hq with rfl | rfl <;> rfl
        have hslice : slice? (q :: c :: r) 1 (byteLength (q :: c :: r) - 1) = some (c :: r).dropLast := by
          refine Text.slice?_eq_some.2 ⟨[q], [q], hsplit, hsize, ?_⟩
          have hlength := congrArg byteLength hsplit
          rw [byteLength_append, byteLength_append] at hlength
          omega
        rw [hslice]
        rfl
      · rfl

/-- Reads what follows the keyword of a directive. -/
def parseAt (args : List Char) : Option (Except String Directive) :=
  match Directive.words args with
  | .error message => some (.error message)
  | .ok [] => some (.error "component directive requires a name")
  | .ok (word :: rest) => do
    let name := (← unquotedAt word).getD word
    some (if !Directive.isComponentName name then .error ("invalid component name: " ++ String.ofList word)
      else do return ⟨String.ofList name, ← rest.mapM Directive.prop⟩)

theorem parseAt_eq (args : List Char) : parseAt args = some (Directive.parse args) := by
  unfold parseAt Directive.parse
  cases Directive.words args with
  | error message => rfl
  | ok words =>
    cases words with
    | nil => rfl
    | cons word rest =>
      dsimp only
      rw [unquotedAt_eq]
      rfl

/-! ### Text beside a directive -/

/-- The place where a line begins at the latest. -/
def lineStart (before : List Char) : Nat :=
  ((findLast? (· == '\n') before).map (· + 1)).getD 0

/-- The text from a place up to a directive, without its indentation if nothing else stands before the directive on
its line. -/
def unindentedAt (src : List Char) (last start : Nat) : Option (List Char) := do
  let before ← slice? src 0 start
  if last ≤ lineStart before then do
    let indent ← slice? src (lineStart before) start
    if indent.all fun c => c == ' ' || c == '\t' then slice? src last (lineStart before) else slice? src last start
  else slice? src last start

/-- What is kept of the text in front of a directive. -/
def keptAt (src : List Char) (last start : Nat) (lead : Mark) : Option (List Char) := do
  let before ← slice? src last start
  match lead with
  | .minus => some (Text.trimEnd before)
  | .plus => some before
  | .none => unindentedAt src last start

/-- The place behind a directive where copying goes on. -/
def resumeAt (src : List Char) (stop : Nat) (trail : Mark) : Option Nat :=
  match trail with
  | .minus => do
    let rest ← slice? src stop (byteLength src)
    some (stop + (byteLength rest - byteLength (Text.trimStart rest)))
  | .plus => some stop
  | .none => do
    let rest ← slice? src stop (byteLength src)
    some (stop + if ['\r', '\n'].isPrefixOf rest then 2 else if ['\n'].isPrefixOf rest then 1 else 0)

/-! ### The expansion -/

/-- The text so far, the place up to which the source is in it, and the loops that are open. -/
structure Splice where
  out : List Char := []
  last : Nat := 0
  loops : Nat := 0

/-- What comes of the tag of a loop. -/
def spliceLoop (p : SecurityPolicy) (src : List Char) (f : FoundTag) (k : Splice) : Option (Result Splice) :=
  if p.maxDepth < k.loops + 1 then do
    let line ← lineAt src f.start
    some (.error (nestingFault p.maxDepth line))
  else do
    let copied ← slice? src k.last f.stop
    some (.ok ⟨k.out ++ (copied ++ Expansion.tick f.tag.trail), f.stop, k.loops + 1⟩)

/-- What comes of a directive. -/
def spliceDirective (p : SecurityPolicy) (registry : Option Component.Registry) (src : List Char) (f : FoundTag)
    (k : Splice) : Option (Result Splice) := do
  let args ← argsAt f.tag.body
  match ← parseAt args with
  | .error message => do
    let line ← lineAt src f.start
    some (.error (.badSyntax message (some line)))
  | .ok d => do
    let kept ← keptAt src k.last f.start f.tag.lead
    let next ← resumeAt src f.stop f.tag.trail
    some (.ok ⟨k.out ++ (kept ++ (d.replacement p registry).source), next, k.loops⟩)

/-- What comes of a block. -/
def spliceTag (p : SecurityPolicy) (registry : Option Component.Registry) (src : List Char) (f : FoundTag)
    (k : Splice) : Option (Result Splice) := do
  let keyword ← keywordAt f.tag.body
  if keyword = "for".toList then spliceLoop p src f k
  else if keyword = "endfor".toList then some (.ok { k with loops := k.loops - 1 })
  else if keyword = "component".toList then spliceDirective p registry src f k
  else some (.ok k)

def splice (p : SecurityPolicy) (registry : Option Component.Registry) (src : List Char) :
    List FoundTag → Splice → Option (Result (List Char))
  | [], k => do
    let rest ← slice? src k.last (byteLength src)
    some (.ok (k.out ++ rest))
  | f :: fs, k => do
    match ← spliceTag p registry src f k with
    | .error e => some (.error e)
    | .ok k' => splice p registry src fs k'

/-- The source that is compiled in the place of a layout source. Nothing if a slice is refused, or if the scanner does
not come to its end. -/
def expandAt (p : SecurityPolicy) (registry : Option Component.Registry) (src : List Char) :
    Option (Result (List Char)) := do
  match ← scanAt src with
  | .error e => some (.error e)
  | .ok tags => splice p registry src (tags.filter fun f => f.tag.kind == .block) {}

/-! ### Indentation -/

/-- A line begins behind this text. -/
def OpensLine (s : List Char) : Prop :=
  ∀ c ∈ s.getLast?, c = '\n'

theorem lineStart_split (s : List Char) :
    ∃ x y, s = x ++ y ∧ lineStart s = byteLength x ∧ OpensLine x ∧ ∀ c ∈ y, c ≠ '\n' := by
  rcases Text.first_or_none (· == '\n') s.reverse with hnone | ⟨u, c, v, hs, hu, hc⟩
  · have hnone : ∀ c ∈ s, (c == '\n') = false := fun c hc => hnone c (List.mem_reverse.2 hc)
    refine ⟨[], s, rfl, ?_, nofun, fun c hc => by simpa using hnone c hc⟩
    rw [lineStart, Text.findLast?_eq_none hnone]
    rfl
  · have hs : s = v.reverse ++ c :: u.reverse := by
      rw [← List.reverse_reverse s, hs]
      simp
    have hu : ∀ a ∈ u.reverse, (a == '\n') = false := fun a ha => hu a (List.mem_reverse.1 ha)
    obtain rfl := eq_of_beq hc
    refine ⟨v.reverse ++ ['\n'], u.reverse, by rw [hs, List.append_assoc]; rfl, ?_, ?_, fun a ha => by simpa using hu a ha⟩
    · rw [lineStart, hs, Text.findLast?_eq_some (p := (· == '\n')) hc hu, byteLength_append]
      rfl
    · intro a ha
      rw [List.getLast?_concat] at ha
      exact (Option.some.inj ha).symm

theorem Expansion.before_none (e : Expansion) : e.before .none =
    match e.pending.dropWhile isIndent with
    | [] => if e.atLineStart then [] else e.pending.reverse
    | c :: r => if c = '\n' then (c :: r).reverse else e.pending.reverse := rfl

/-- Where more than indentation stands in front of a directive on its line, all is kept. -/
theorem Expansion.before_kept {e : Expansion} (hline : ∀ c r, e.pending.dropWhile isIndent = c :: r → c ≠ '\n')
    (hstart : e.pending.dropWhile isIndent = [] → e.atLineStart = false) : e.before .none = e.pending.reverse := by
  rw [before_none]
  cases hd : e.pending.dropWhile isIndent with
  | nil => rw [hstart hd]; rfl
  | cons c r => exact if_neg (hline c r hd)

/-- So it is where the text of the line is seen. -/
theorem Expansion.before_kept_text {e : Expansion} {y z : List Char} (hpending : e.pending = y.reverse ++ z.reverse)
    (hy : ∀ c ∈ y, c ≠ '\n') (hblank : ¬ ∀ c ∈ y, isIndent c = true) : e.before .none = e.pending.reverse := by
  have hdrop : y.reverse.dropWhile isIndent ≠ [] := by
    rw [Ne, List.dropWhile_eq_nil_iff]
    exact fun h => hblank fun c hc => h c (List.mem_reverse.2 hc)
  obtain ⟨a, r, har⟩ := List.exists_cons_of_ne_nil hdrop
  have hwhole : e.pending.dropWhile isIndent = a :: (r ++ z.reverse) := by
    rw [hpending, List.dropWhile_append, har]
    rfl
  have ha : a ∈ y := by
    rw [← List.mem_reverse]
    exact (List.dropWhile_sublist _).mem (har ▸ List.mem_cons_self)
  refine before_kept ?_ ?_
  · intro c r' h
    rw [hwhole] at h
    exact (List.cons.inj h).1 ▸ hy a ha
  · intro h
    rw [hwhole] at h
    cases h

/-- Indentation behind the beginning of a line is dropped. -/
theorem Expansion.before_unindented {e : Expansion} {y z : List Char} (hpending : e.pending = y.reverse ++ z.reverse)
    (hy : ∀ c ∈ y, isIndent c = true) (hz : OpensLine z) (hstart : z = [] → e.atLineStart = true) :
    e.before .none = z := by
  have hy : ∀ c ∈ y.reverse, isIndent c = true := fun c hc => hy c (List.mem_reverse.1 hc)
  rw [before_none, hpending, List.dropWhile_append_of_pos hy]
  rcases List.eq_nil_or_concat' z with rfl | ⟨x, c, rfl⟩
  · rw [hstart rfl]
    rfl
  · obtain rfl := hz c List.getLast?_concat
    rw [List.reverse_append]
    change (if '\n' = '\n' then (List.reverse ('\n' :: x.reverse)) else _) = _
    rw [if_pos rfl, List.reverse_cons, List.reverse_reverse]

/-- What is held is a slice. -/
theorem slice?_held (before held rest : List Char) :
    slice? (before ++ (held ++ rest)) (byteLength before) (byteLength (before ++ held)) = some held := by
  rw [byteLength_append]
  exact Text.slice?_middle before held rest

theorem unindentedAt_of_lineStart {src before : List Char} {last place : Nat}
    (hfront : slice? src 0 (byteLength before) = some before) (hplace : lineStart before = place) :
    unindentedAt src last (byteLength before) =
      if last ≤ place then do
        let indent ← slice? src place (byteLength before)
        if indent.all fun c => c == ' ' || c == '\t' then slice? src last place
          else slice? src last (byteLength before)
      else slice? src last (byteLength before) := by
  subst hplace
  rw [unindentedAt, hfront]
  rfl

section Held

variable {e : Expansion} {before x y z rest : List Char}

/-- The line begins in what is held, or with it. -/
theorem unindentedAt_held (hheld : e.pending.reverse = z ++ y)
    (hplace : lineStart (before ++ e.pending.reverse) = byteLength (before ++ z)) (hx : OpensLine (before ++ z))
    (hy : ∀ c ∈ y, c ≠ '\n') (hline : e.atLineStart = true ↔ OpensLine before) :
    unindentedAt (before ++ (e.pending.reverse ++ rest)) (byteLength before)
      (byteLength (before ++ e.pending.reverse)) = some (e.before .none) := by
  have hfront : slice? (before ++ (e.pending.reverse ++ rest)) 0 (byteLength (before ++ e.pending.reverse)) =
      some (before ++ e.pending.reverse) := by
    rw [← List.append_assoc]
    exact Text.slice?_front _ _
  have hindent : slice? (before ++ (e.pending.reverse ++ rest)) (byteLength (before ++ z))
      (byteLength (before ++ e.pending.reverse)) = some y := by
    have h := slice?_held (before ++ z) y rest
    rwa [List.append_assoc before z y, ← hheld, List.append_assoc before z (y ++ rest), ← List.append_assoc z y,
      ← hheld] at h
  have hkept : slice? (before ++ (e.pending.reverse ++ rest)) (byteLength before) (byteLength (before ++ z)) =
      some z := by
    rw [hheld, List.append_assoc]
    exact slice?_held before z (y ++ rest)
  have hpending : e.pending = y.reverse ++ z.reverse := by
    rw [← List.reverse_reverse e.pending, hheld, List.reverse_append]
  rw [unindentedAt_of_lineStart hfront hplace, if_pos (by rw [byteLength_append]; exact Nat.le_add_right _ _), hindent,
    hkept, slice?_held]
  dsimp only [Option.bind_eq_bind, Option.bind_some]
  by_cases hblank : ∀ c ∈ y, isIndent c = true
  · have hz : OpensLine z := by
      intro c hc
      refine hx c ?_
      rw [List.getLast?_append, Option.mem_def.1 hc]
      rfl
    have hstart : z = [] → e.atLineStart = true := by
      rintro rfl
      rw [List.append_nil] at hx
      exact hline.2 hx
    rw [Expansion.before_unindented hpending hblank hz hstart]
    exact if_pos (List.all_eq_true.2 hblank)
  · have hnot : ¬ (y.all fun c => c == ' ' || c == '\t') = true := fun h => hblank (List.all_eq_true.1 h)
    rw [if_neg hnot, Expansion.before_kept_text hpending hy hblank]

/-- The line begins earlier, and not only with what is held. -/
theorem unindentedAt_earlier (hz : z ≠ []) (hplace : lineStart (x ++ z ++ e.pending.reverse) = byteLength x)
    (hy : ∀ c ∈ z ++ e.pending.reverse, c ≠ '\n') (hline : e.atLineStart = true ↔ OpensLine (x ++ z)) :
    unindentedAt (x ++ z ++ (e.pending.reverse ++ rest)) (byteLength (x ++ z))
      (byteLength (x ++ z ++ e.pending.reverse)) = some (e.before .none) := by
  have hfront : slice? (x ++ z ++ (e.pending.reverse ++ rest)) 0 (byteLength (x ++ z ++ e.pending.reverse)) =
      some (x ++ z ++ e.pending.reverse) := by
    rw [← List.append_assoc (x ++ z)]
    exact Text.slice?_front _ _
  obtain ⟨z, c, rfl⟩ := (List.eq_nil_or_concat' z).resolve_left hz
  have hlate : ¬ byteLength (x ++ (z ++ [c])) ≤ byteLength x := by
    have hc := c.utf8Size_pos
    rw [byteLength_append, byteLength_append, Text.byteLength_singleton]
    omega
  have hstart : e.atLineStart = false := by
    rw [Bool.eq_false_iff, Ne, hline]
    intro hopens
    rw [← List.append_assoc] at hopens
    exact hy c (by simp) (hopens c List.getLast?_concat)
  rw [unindentedAt_of_lineStart hfront hplace, if_neg hlate, slice?_held, Expansion.before_kept]
  · intro a r h
    refine hy a (List.mem_append_right _ (List.mem_reverse.2 ?_))
    exact (List.dropWhile_sublist _).mem (h ▸ List.mem_cons_self)
  · exact fun _ => hstart

theorem unindentedAt_eq (hline : e.atLineStart = true ↔ OpensLine before) :
    unindentedAt (before ++ (e.pending.reverse ++ rest)) (byteLength before)
      (byteLength (before ++ e.pending.reverse)) = some (e.before .none) := by
  obtain ⟨x, y, hsplit, hplace, hx, hy⟩ := lineStart_split (before ++ e.pending.reverse)
  rcases List.append_eq_append_iff.1 hsplit with ⟨z, rfl, hheld⟩ | ⟨z, rfl, rfl⟩
  · exact unindentedAt_held hheld hplace hx hy hline
  · by_cases hz : z = []
    · subst hz
      rw [List.append_nil] at hplace hline ⊢
      rw [List.append_nil] at hsplit
      refine unindentedAt_held (z := []) rfl ?_ ?_ hy hline
      · rw [hplace, List.append_nil]
      · rwa [List.append_nil]
    · exact unindentedAt_earlier hz hplace hy hline

end Held

/-- The expansion keeps the same in front of a directive. -/
theorem keptAt_eq {e : Expansion} {before rest : List Char} (hline : e.atLineStart = true ↔ OpensLine before)
    (lead : Mark) : keptAt (before ++ (e.pending.reverse ++ rest)) (byteLength before)
      (byteLength (before ++ e.pending.reverse)) lead = some (e.before lead) := by
  unfold keptAt
  rw [slice?_held]
  cases lead with
  | plus => rfl
  | minus =>
    change some (Text.dropTail Text.isBlank e.pending.reverse) = _
    rw [Text.dropTail, List.reverse_reverse]
    rfl
  | none => exact unindentedAt_eq hline

/-- Behind a directive copying goes on where the expansion does. -/
theorem resumeAt_eq {trail : Mark} {b : List Char} (h : Expansion.droppedAfter trail (b ++ v) = b.length) :
    resumeAt (u ++ (b ++ v)) (byteLength u) trail = some (byteLength (u ++ b)) := by
  unfold resumeAt
  rw [Text.slice?_rest, byteLength_append u b]
  cases trail with
  | plus =>
    obtain rfl := List.eq_nil_of_length_eq_zero h.symm
    rfl
  | minus =>
    have hblank : (b ++ v).takeWhile Text.isBlank = b := by
      have hbegins := List.takeWhile_prefix (l := b ++ v) Text.isBlank
      exact (List.prefix_of_prefix_length_le hbegins (List.prefix_append b v) (Nat.le_of_eq h)).eq_of_length h
    have hsplit : b ++ v = b ++ Text.trimStart (b ++ v) := by
      conv_lhs => rw [← List.takeWhile_append_dropWhile (p := Text.isBlank) (l := b ++ v), hblank]
      rfl
    have hlength := congrArg byteLength hsplit
    rw [byteLength_append b (Text.trimStart _)] at hlength
    dsimp only [Option.bind_eq_bind, Option.bind_some]
    rw [hlength, Nat.add_sub_cancel]
  | none =>
    dsimp only [Option.bind_eq_bind, Option.bind_some]
    generalize hs : b ++ v = s at h
    unfold Expansion.droppedAfter at h
    split at h
    · next heq => cases heq
    · next heq => cases heq
    · obtain ⟨c, d, rfl⟩ := List.length_eq_two.1 h.symm
      cases hs
      rfl
    · obtain ⟨c, rfl⟩ := List.length_eq_one_iff.1 h.symm
      cases hs
      rfl
    · next s _ _ _ hreturn hline =>
      obtain rfl := List.eq_nil_of_length_eq_zero h.symm
      have hr : ¬ ['\r', '\n'].isPrefixOf s = true := by
        rw [Text.begins_iff]
        rintro ⟨t, rfl⟩
        exact hreturn t rfl
      have hn : ¬ ['\n'].isPrefixOf s = true := by
        rw [Text.begins_iff]
        rintro ⟨t, rfl⟩
        exact hline t rfl
      rw [if_neg hr, if_neg hn]
      rfl

/-! ### Side by side with the expansion of characters -/

/-- The two are at one place: behind `before`, which is written out, the expansion holds the text that is still to be
copied. -/
structure Tracks (src before : List Char) (ps : List Piece) (k : Splice) (e : Expansion) : Prop where
  source : src = before ++ (e.pending.reverse ++ ps.flatMap Piece.source)
  last : k.last = byteLength before
  loops : k.loops = e.loops
  line : e.line = 1 + lineEnds (before ++ e.pending.reverse)
  opens : e.atLineStart = true ↔ OpensLine before

variable {before : List Char} {ps : List Piece} {k : Splice} {e : Expansion} {t : Tag}

theorem Tracks.copy {q : Piece} (h : Tracks src before (q :: ps) k e) : Tracks src before ps k (e.copy q.source) where
  source := by
    rw [h.source]
    simp [Expansion.copy]
  last := h.last
  loops := h.loops
  line := by
    have hpending : before ++ (e.copy q.source).pending.reverse = before ++ e.pending.reverse ++ q.source := by
      simp [Expansion.copy]
    rw [hpending, lineEnds_append, ← Nat.add_assoc, ← h.line]
    rfl
  opens := h.opens

theorem not_opensLine_tag (before : List Char) (t : Tag) : ¬ OpensLine (before ++ t.source) := by
  intro hopens
  obtain ⟨x, c, hx, hc⟩ := t.endsSolid
  rw [hx, ← List.append_assoc] at hopens
  rw [hopens c List.getLast?_concat] at hc
  exact absurd hc (by decide)

/-- Behind the tag of a loop, or of a directive of which nothing is dropped, all of the source is written out. -/
theorem Tracks.afterTag (h : Tracks src before (.tag t :: ps) k e) {k' : Splice} {n : Nat}
    (hlast : k'.last = byteLength (before ++ e.pending.reverse) + byteLength t.source) (hloops : k'.loops = n) :
    Tracks src (before ++ (e.pending.reverse ++ t.source)) ps k' { e.afterTag t with loops := n } where
  source := by
    rw [h.source]
    simp [Expansion.afterTag, Piece.source]
  last := by rw [hlast, ← byteLength_append, List.append_assoc]
  loops := hloops
  line := by
    change e.line + lineEnds t.source = 1 + lineEnds (before ++ (e.pending.reverse ++ t.source) ++ [])
    rw [List.append_nil, ← List.append_assoc, lineEnds_append, ← Nat.add_assoc, ← h.line]
  opens := by
    change false = true ↔ _
    rw [← List.append_assoc]
    exact iff_of_false (by decide) (not_opensLine_tag _ t)

/-- An expansion behind characters that a directive took along. -/
def Expansion.passed (e : Expansion) (b : List Char) : Expansion :=
  { e with line := e.line + lineEnds b, atLineStart := (b.getLast?.map (· == '\n')).getD e.atLineStart }

theorem expandPieces_passed (b : List Char) (ps : List Piece) (e : Expansion) :
    expandPieces p registry ((chars b).flatMap Chunk.pieces ++ ps) b.length e =
      expandPieces p registry ps 0 (e.passed b) := by
  induction b generalizing e with
  | nil => rfl
  | cons c b ih =>
    have hpassed : ({ e with line := e.line + lineEnds [c], atLineStart := c == '\n' } : Expansion).passed b =
        e.passed (c :: b) := by
      have hlines : e.line + lineEnds [c] + lineEnds b = e.line + lineEnds (c :: b) := by
        rw [Nat.add_assoc, ← lineEnds_append]
        rfl
      have hlast : (b.getLast?.map (· == '\n')).getD (c == '\n') =
          ((c :: b).getLast?.map (· == '\n')).getD e.atLineStart := by
        rw [List.getLast?_cons]
        cases b.getLast? <;> rfl
      unfold Expansion.passed
      rw [hlines, hlast]
    rw [← hpassed]
    exact ih _

theorem pieces_chars (b : List Char) : ((chars b).flatMap Chunk.pieces).flatMap Piece.source = b := by
  rw [List.flatMap_assoc]
  exact cutSource_chars b

theorem Tracks.passed {b : List Char} (h : Tracks src before ((chars b).flatMap Chunk.pieces ++ ps) k e)
    (hpending : e.pending = []) {k' : Splice} (hlast : k'.last = byteLength (before ++ b))
    (hloops : k'.loops = k.loops) : Tracks src (before ++ b) ps k' (e.passed b) where
  source := by
    rw [h.source, List.flatMap_append, pieces_chars]
    simp [Expansion.passed, hpending]
  last := hlast
  loops := hloops.trans h.loops
  line := by
    change e.line + lineEnds b = 1 + lineEnds (before ++ b ++ e.pending.reverse)
    rw [h.line, hpending, List.reverse_nil, List.append_nil, List.append_nil, lineEnds_append, Nat.add_assoc]
  opens := by
    change (b.getLast?.map (· == '\n')).getD e.atLineStart = true ↔ _
    rcases List.eq_nil_or_concat' b with rfl | ⟨b, c, rfl⟩
    · rw [List.append_nil]
      exact h.opens
    · rw [List.getLast?_concat, ← List.append_assoc, OpensLine, List.getLast?_concat]
      simp

/-! ### Steps -/

/-- A tag where it is found in a source of which so much stands before it. -/
def Tag.foundBehind (t : Tag) (front : List Char) : FoundTag :=
  ⟨t, byteLength front, byteLength front + byteLength t.source⟩

theorem Tag.role_block (h : t.kind = .block) : t.role =
    if t.keyword = "for".toList then .loop
    else if t.keyword = "endfor".toList then .endLoop
    else if t.keyword = "component".toList then .directive
    else .other := by
  rw [Tag.role, h]

/-- Text that follows plain characters begins with a brace. -/
theorem leadingText_brace (ks : List Chunk) : ∃ w, (w.head? = some '\x7b' ∨ w = []) ∧
    (ks.flatMap Chunk.pieces).flatMap Piece.source = leadingText (ks.flatMap Chunk.pieces) ++ w := by
  have htag : ∀ (t : Tag) (r : List Char), (t.source ++ r).head? = some '\x7b' := fun _ _ => rfl
  cases ks with
  | nil => exact ⟨[], .inr rfl, rfl⟩
  | cons k ks =>
    cases k with
    | char c =>
      obtain ⟨w, hw, h⟩ := leadingText_brace ks
      exact ⟨w, hw, congrArg (c :: ·) h⟩
    | comment text => exact ⟨_, .inl rfl, rfl⟩
    | raw t section_ => exact ⟨_, .inl (htag t _), rfl⟩
    | tag t => exact ⟨_, .inl (htag t _), rfl⟩

/-- What a block does to the text, and to the expansion of characters at the same place. -/
inductive StepsAlike (p : SecurityPolicy) (registry : Option Component.Registry) (src : List Char) (k : Splice)
    (e : Expansion) (t : Tag) (ks : List Chunk) : Option (Result Splice) → Prop
  | refused {x : Failure} : expandPieces p registry (.tag t :: ks.flatMap Chunk.pieces) 0 e = .error x →
      StepsAlike p registry src k e t ks (some (.error x))
  | passes {k' : Splice} {e' : Expansion} {written b before' : List Char} {ks' : List Chunk} : ks = chars b ++ ks' →
      k'.out = k.out ++ written →
      expandPieces p registry (.tag t :: ks.flatMap Chunk.pieces) 0 e =
        (written ++ ·) <$> expandPieces p registry (ks'.flatMap Chunk.pieces) 0 e' →
      Tracks src before' (ks'.flatMap Chunk.pieces) k' e' → StepsAlike p registry src k e t ks (some (.ok k'))

section Alike

variable {ks : List Chunk}

theorem Tracks.split (h : Tracks src before (.tag t :: ks.flatMap Chunk.pieces) k e) :
    src = before ++ e.pending.reverse ++ (t.source ++ (ks.flatMap Chunk.pieces).flatMap Piece.source) := by
  rw [h.source, List.append_assoc]
  rfl

theorem Tracks.lineAt (h : Tracks src before (.tag t :: ks.flatMap Chunk.pieces) k e) :
    Template.lineAt src (byteLength (before ++ e.pending.reverse)) = some e.line := by
  rw [h.split, lineAt_eq, h.line]

theorem spliceLoop_alike (h : Tracks src before (.tag t :: ks.flatMap Chunk.pieces) k e) (hrole : t.role = .loop) :
    StepsAlike p registry src k e t ks (spliceLoop p src (t.foundBehind (before ++ e.pending.reverse)) k) := by
  unfold spliceLoop Tag.foundBehind
  dsimp only
  split
  · next hdeep =>
    rw [h.lineAt]
    refine .refused ?_
    rw [expandPieces, hrole]
    dsimp only
    rw [if_pos (h.loops ▸ hdeep)]
    rfl
  · next hshallow =>
    have hcopied : slice? src k.last (byteLength (before ++ e.pending.reverse) + byteLength t.source) =
        some (e.pending.reverse ++ t.source) := by
      have hheld := slice?_held before (e.pending.reverse ++ t.source) ((ks.flatMap Chunk.pieces).flatMap Piece.source)
      rw [h.last, ← byteLength_append, List.append_assoc, h.split]
      simpa only [List.append_assoc] using hheld
    rw [hcopied]
    refine .passes (b := []) rfl rfl ?_ (h.afterTag rfl (congrArg (· + 1) h.loops))
    rw [expandPieces, hrole]
    dsimp only
    rw [if_neg (h.loops ▸ hshallow), ← map_eq_pure_bind]
    simp only [List.append_assoc]

/-- Behind a directive copying goes on behind characters that are dropped from the text. -/
theorem Tracks.resumeAt (h : Tracks src before (.tag t :: ks.flatMap Chunk.pieces) k e) :
    ∃ b ks', ks = chars b ++ ks' ∧
      Expansion.droppedAfter t.trail (leadingText (ks.flatMap Chunk.pieces)) = b.length ∧
      Template.resumeAt src (byteLength (before ++ e.pending.reverse) + byteLength t.source) t.trail =
        some (byteLength (before ++ (e.pending.reverse ++ t.source) ++ b)) := by
  obtain ⟨w, hw, htext⟩ := leadingText_brace ks
  obtain ⟨b, r, hlead, -, hdropped⟩ := Expansion.droppedAfter_drops t.trail (leadingText (ks.flatMap Chunk.pieces))
  obtain ⟨ks', hks⟩ := leadingText_chunks hlead
  refine ⟨b, ks', hks, hdropped, ?_⟩
  have hrest : Expansion.droppedAfter t.trail (b ++ (r ++ w)) = b.length := by
    rw [← List.append_assoc, ← hlead, droppedAfter_brace _ _ _ hw, hdropped]
  rw [h.split, htext, hlead, List.append_assoc b, ← List.append_assoc _ t.source, ← byteLength_append,
    resumeAt_eq hrest, List.append_assoc before]

theorem spliceDirective_alike (h : Tracks src before (.tag t :: ks.flatMap Chunk.pieces) k e)
    (hrole : t.role = .directive) :
    StepsAlike p registry src k e t ks
      (spliceDirective p registry src (t.foundBehind (before ++ e.pending.reverse)) k) := by
  unfold spliceDirective Tag.foundBehind
  dsimp only
  rw [argsAt_eq]
  simp only [Option.bind_eq_bind, Option.bind_some, parseAt_eq]
  cases hparse : Directive.parse t.args with
  | error message =>
    simp only [h.lineAt, Option.bind_some]
    refine .refused ?_
    rw [expandPieces, hrole]
    dsimp only
    rw [hparse]
  | ok d =>
    obtain ⟨b, ks', hks, hdropped, hnext⟩ := h.resumeAt
    have hkept : keptAt src k.last (byteLength (before ++ e.pending.reverse)) t.lead = some (e.before t.lead) := by
      rw [h.source, h.last, keptAt_eq h.opens]
    have hafter : Tracks src (before ++ (e.pending.reverse ++ t.source))
        ((chars b).flatMap Chunk.pieces ++ ks'.flatMap Chunk.pieces)
        ⟨[], byteLength (before ++ e.pending.reverse) + byteLength t.source, k.loops⟩ (e.afterTag t) := by
      rw [← List.flatMap_append, ← hks]
      exact h.afterTag rfl h.loops
    simp only [hkept, hnext, Option.bind_some]
    refine .passes hks rfl ?_ (hafter.passed rfl rfl rfl)
    rw [expandPieces, hrole]
    dsimp only
    rw [hparse]
    dsimp only
    rw [hdropped, hks, List.flatMap_append, expandPieces_passed, ← map_eq_pure_bind]
    simp only [List.append_assoc]

/-- Each block does the same to both. -/
theorem spliceTag_alike (h : Tracks src before (.tag t :: ks.flatMap Chunk.pieces) k e) (hkind : t.kind = .block) :
    StepsAlike p registry src k e t ks
      (spliceTag p registry src (t.foundBehind (before ++ e.pending.reverse)) k) := by
  have hrole := t.role_block hkind
  have hkeyword : keywordAt (t.foundBehind (before ++ e.pending.reverse)).tag.body = some t.keyword := keywordAt_eq t
  unfold spliceTag
  simp only [hkeyword, Option.bind_eq_bind, Option.bind_some]
  split_ifs at hrole ⊢
  · exact spliceLoop_alike h hrole
  · have hnext : Tracks src before (ks.flatMap Chunk.pieces) { k with loops := k.loops - 1 }
        { e.copy t.source with loops := e.loops - 1 } :=
      { h.copy with loops := congrArg (· - 1) h.loops }
    refine .passes (b := []) rfl (List.append_nil _).symm ?_ hnext
    rw [expandPieces, hrole]
    exact (map_nothing _).symm
  · exact spliceDirective_alike h hrole
  · refine .passes (b := []) rfl (List.append_nil _).symm ?_ h.copy
    rw [expandPieces, hrole]
    exact (map_nothing _).symm

end Alike

/-! ### Runs -/

/-- The blocks among pieces that begin at a place. -/
def foundBlocks (place : Nat) (ps : List Piece) : List FoundTag :=
  (foundTags place ps).filter fun f => f.tag.kind == .block

theorem foundBlocks_block (hkind : t.kind = .block) (front : List Char) (ps : List Piece) :
    foundBlocks (byteLength front) (.tag t :: ps) =
      t.foundBehind front :: foundBlocks (byteLength front + byteLength t.source) ps :=
  List.filter_cons_of_pos (by rw [hkind]; rfl)

theorem foundBlocks_expr (hkind : t.kind = .expr) (place : Nat) (ps : List Piece) :
    foundBlocks place (.tag t :: ps) = foundBlocks (place + byteLength t.source) ps :=
  List.filter_cons_of_neg (by rw [hkind]; decide)

theorem foundBlocks_chars (place : Nat) (b : List Char) (ps : List Piece) :
    foundBlocks place ((chars b).flatMap Chunk.pieces ++ ps) = foundBlocks (place + byteLength b) ps := by
  induction b generalizing place with
  | nil => rfl
  | cons c b ih =>
    refine (ih (place + byteLength [c])).trans ?_
    rw [Nat.add_assoc, ← byteLength_append]
    rfl

theorem spliceTag_other {f : FoundTag} (hkind : f.tag.kind = .block) (hrole : f.tag.role = .other) (k : Splice) :
    spliceTag p registry src f k = some (.ok k) := by
  rw [f.tag.role_block hkind] at hrole
  unfold spliceTag
  rw [keywordAt_eq]
  simp only [Option.bind_eq_bind, Option.bind_some]
  split_ifs at hrole ⊢
  rfl

/-- A piece that is copied moves both on. -/
theorem byteLength_copy (before : List Char) (e : Expansion) (q : Piece) :
    byteLength (before ++ e.pending.reverse) + byteLength q.source =
      byteLength (before ++ (e.copy q.source).pending.reverse) := by
  rw [← byteLength_append]
  simp [Expansion.copy]

/-- Behind a block and characters that it takes along. -/
theorem Tracks.front {k' : Splice} {e' : Expansion} {b before' : List Char} {ks : List Chunk}
    (h : Tracks src before (.tag t :: (chars b ++ ks).flatMap Chunk.pieces) k e)
    (h' : Tracks src before' (ks.flatMap Chunk.pieces) k' e') :
    before' ++ e'.pending.reverse = before ++ e.pending.reverse ++ t.source ++ b := by
  have hsource := h'.source
  rw [h.split, List.flatMap_append, List.flatMap_append, pieces_chars] at hsource
  simp only [← List.append_assoc] at hsource
  exact (List.append_cancel_right hsource).symm

theorem splice_eq {ks : List Chunk} (hks : RawTagged ks) (h : Tracks src before (ks.flatMap Chunk.pieces) k e) :
    splice p registry src (foundBlocks (byteLength (before ++ e.pending.reverse)) (ks.flatMap Chunk.pieces)) k =
      some ((k.out ++ ·) <$> expandPieces p registry (ks.flatMap Chunk.pieces) 0 e) := by
  induction hn : ks.length using Nat.strongRecOn generalizing ks before k e with
  | ind n ih =>
    cases ks with
    | nil =>
      have hrest : slice? src k.last (byteLength src) = some e.pending.reverse := by
        rw [h.source, h.last]
        simpa using Text.slice?_rest before e.pending.reverse
      change splice p registry src [] k = _
      rw [splice, hrest]
      rfl
    | cons c ks =>
      have hrest : RawTagged ks := fun t section_ hmem => hks t section_ (List.mem_cons_of_mem _ hmem)
      have hlt : ks.length < n := by
        rw [← hn]
        exact Nat.lt_succ_self _
      cases c with
      | char c =>
        have hnext := ih _ hlt hrest h.copy rfl
        rw [← byteLength_copy before e (.char c)] at hnext
        exact hnext
      | comment text =>
        have hnext := ih _ hlt hrest h.copy rfl
        rw [← byteLength_copy before e (.hidden _)] at hnext
        exact hnext
      | raw t section_ =>
        have hraw := hks t section_ List.mem_cons_self
        have hkind : t.kind = .block := eq_of_beq ((Bool.and_eq_true _ _).mp hraw).1
        have hrole := Tag.isRaw_role hraw
        have h : Tracks src before (.tag t :: .hidden section_ :: ks.flatMap Chunk.pieces) k e := h
        have hnext := ih _ hlt hrest h.copy.copy rfl
        rw [← byteLength_copy before _ (.hidden section_), ← byteLength_copy before e (.tag t)] at hnext
        change splice p registry src (foundBlocks _ (.tag t :: .hidden section_ :: ks.flatMap Chunk.pieces)) k =
          some (_ <$> expandPieces p registry (.tag t :: .hidden section_ :: ks.flatMap Chunk.pieces) 0 e)
        rw [foundBlocks_block hkind, splice, spliceTag_other hkind hrole, expandPieces, hrole]
        dsimp only
        rw [expandPieces]
        exact hnext
      | tag t =>
        cases hkind : t.kind with
        | expr =>
          have hrole : t.role = .other := by rw [Tag.role, hkind]
          have hnext := ih _ hlt hrest h.copy rfl
          rw [← byteLength_copy before e (.tag t)] at hnext
          change splice p registry src (foundBlocks _ (.tag t :: ks.flatMap Chunk.pieces)) k =
            some (_ <$> expandPieces p registry (.tag t :: ks.flatMap Chunk.pieces) 0 e)
          rw [foundBlocks_expr hkind, expandPieces, hrole]
          exact hnext
        | block =>
          have halike : StepsAlike p registry src k e t ks (spliceTag p registry src _ k) := spliceTag_alike h hkind
          change splice p registry src (foundBlocks _ (.tag t :: ks.flatMap Chunk.pieces)) k =
            some (_ <$> expandPieces p registry (.tag t :: ks.flatMap Chunk.pieces) 0 e)
          rw [foundBlocks_block hkind, splice]
          generalize spliceTag p registry src (t.foundBehind (before ++ e.pending.reverse)) k = step at halike ⊢
          cases halike with
          | refused hx =>
            rw [hx]
            rfl
          | @passes k' e' written b before' ks' hsplit hout hexpand htracks =>
            subst hsplit
            have hrest' : RawTagged ks' := fun t section_ hmem => hrest t section_ (List.mem_append_right _ hmem)
            have hlt' : ks'.length < n := by
              rw [List.length_append] at hlt
              omega
            have hnext := ih _ hlt' hrest' htracks rfl
            rw [Tracks.front h htracks, byteLength_append _ b, byteLength_append _ t.source, hout] at hnext
            rw [hexpand, List.flatMap_append, foundBlocks_chars]
            simp only [Option.bind_eq_bind, Option.bind_some]
            rw [hnext]
            cases expandPieces p registry (ks'.flatMap Chunk.pieces) 0 e' with
            | error x => rfl
            | ok text => exact congrArg (fun r => some (Except.ok r)) (List.append_assoc ..)

/-- The expansion over places comes to its end, is refused no slice, and answers as that of characters does. -/
theorem expandAt_eq (p : SecurityPolicy) (registry : Option Component.Registry) (src : List Char) :
    expandAt p registry src = some (expand p registry src) := by
  unfold expandAt expand
  rw [scanAt_eq]
  cases hscan : scan src with
  | error e => rfl
  | ok ps =>
    obtain ⟨ks, rfl, hks, -⟩ := scanFrom_chunks hscan
    have htracks : Tracks src [] (ks.flatMap Chunk.pieces) {} {} :=
      { source := (scanFrom_source hscan).symm, last := rfl, loops := rfl, line := rfl,
        opens := iff_of_true rfl nofun }
    change splice p registry src (foundBlocks 0 (ks.flatMap Chunk.pieces)) {} =
      some (expandPieces p registry (ks.flatMap Chunk.pieces) 0 {})
    refine (splice_eq hks htracks).trans ?_
    cases expandPieces p registry (ks.flatMap Chunk.pieces) 0 {} <;> rfl

/-- Without loops and directives everything is copied. -/
theorem expandPieces_copies (hps : ∀ t, .tag t ∈ ps → t.role ≠ .loop ∧ t.role ≠ .directive) (e : Expansion) :
    expandPieces p registry ps 0 e = .ok (e.pending.reverse ++ ps.flatMap Piece.source) := by
  induction ps generalizing e with
  | nil => simp [expandPieces]
  | cons q ps ih =>
    have ih := fun e => ih (fun t ht => hps t (List.mem_cons_of_mem _ ht)) e
    cases q with
    | char c => simp [expandPieces, ih, Expansion.copy, Piece.source]
    | hidden cs => simp [expandPieces, ih, Expansion.copy, Piece.source]
    | tag t =>
      obtain ⟨hloop, hdirective⟩ := hps t List.mem_cons_self
      cases hrole : t.role with
      | loop => exact absurd hrole hloop
      | directive => exact absurd hrole hdirective
      | endLoop => simp [expandPieces, hrole, ih, Expansion.copy, Piece.source]
      | other => simp [expandPieces, hrole, ih, Expansion.copy, Piece.source]

theorem exists_foundTag (place : Nat) (h : .tag t ∈ ps) : ∃ f ∈ foundTags place ps, f.tag = t := by
  induction ps generalizing place with
  | nil => exact absurd h List.not_mem_nil
  | cons q ps ih =>
    rcases List.mem_cons.1 h with rfl | h
    · exact ⟨_, List.mem_cons_self, rfl⟩
    · obtain ⟨f, hf, hft⟩ := ih (place + byteLength q.source) h
      refine ⟨f, ?_, hft⟩
      cases q with
      | char c => exact hf
      | hidden cs => exact hf
      | tag t => exact List.mem_cons_of_mem _ hf

/-- Whatever the source, both loops end, and no slice is refused: each lies in its text, between characters, and ends
no earlier than it begins (`Text.slice?_eq_some`). The tags that are found stand in order and apart, each with its own
source between its places; and without loops and directives the source stays as it is. -/
theorem expandAt_takes_good_slices (p : SecurityPolicy) (registry : Option Component.Registry) (src : List Char) :
    scanAt src = some (foundTags 0 <$> scan src) ∧ expandAt p registry src = some (expand p registry src) ∧
      ∀ tags, scanAt src = some (.ok tags) →
        tags.Pairwise (fun f g => f.stop ≤ g.start) ∧ (∀ f ∈ tags, f.StandsIn src) ∧
          ((∀ f ∈ tags, f.tag.role ≠ .loop ∧ f.tag.role ≠ .directive) →
            expandAt p registry src = some (.ok src)) := by
  refine ⟨scanAt_eq src, expandAt_eq p registry src, fun tags htags => ?_⟩
  obtain ⟨hapart, hstand⟩ := scanAt_stand htags
  refine ⟨hapart, hstand, fun hplain => ?_⟩
  rw [scanAt_eq] at htags
  rw [expandAt_eq, expand]
  cases hscan : scan src with
  | error e =>
    rw [hscan] at htags
    cases htags
  | ok ps =>
    rw [hscan] at htags
    cases htags
    have hroles : ∀ t, .tag t ∈ ps → t.role ≠ .loop ∧ t.role ≠ .directive := by
      intro t ht
      obtain ⟨f, hf, rfl⟩ := exists_foundTag 0 ht
      exact hplain f hf
    change some (expandPieces p registry ps 0 {}) = _
    rw [expandPieces_copies hroles]
    exact congrArg (fun s => some (Except.ok s)) (scanFrom_source hscan)

/-- A tag between two letters of two octets each. -/
theorem expandAt_takes_good_slices_umlauts : scanAt "ä\x7b\x7b x \x7d\x7dö".toList =
      some (.ok [⟨⟨.expr, .none, " x ".toList, .none⟩, 2, 9⟩]) ∧
    expandAt oneLoopPolicy none "ä\x7b\x7b x \x7d\x7dö".toList = some (.ok "ä\x7b\x7b x \x7d\x7dö".toList) := by
  have h : ((scanAt "ä\x7b\x7b x \x7d\x7dö".toList).bind Except.toOption) =
      some [⟨⟨.expr, .none, " x ".toList, .none⟩, 2, 9⟩] := by decide +kernel
  have htags : scanAt "ä\x7b\x7b x \x7d\x7dö".toList = some (.ok [⟨⟨.expr, .none, " x ".toList, .none⟩, 2, 9⟩]) := by
    cases hs : scanAt "ä\x7b\x7b x \x7d\x7dö".toList with
    | none =>
      rw [hs] at h
      cases h
    | some r =>
      cases r with
      | error e =>
        rw [hs] at h
        cases h
      | ok tags =>
        rw [hs] at h
        exact congrArg (fun tags => some (Except.ok tags)) (Option.some.inj h)
  refine ⟨htags, ((expandAt_takes_good_slices oneLoopPolicy none _).2.2 _ htags).2.2 ?_⟩
  decide

end SecureLayout.Template
