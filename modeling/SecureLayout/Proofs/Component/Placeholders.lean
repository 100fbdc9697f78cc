import Mathlib.Data.Bool.AllAny
import Mathlib.Data.String.Basic
import SecureLayout.Component.Markup
import SecureLayout.Proofs.Json.Rereading
import SecureLayout.Proofs.Template.Reading

/-!
Escaped texts, and placeholders in a page. A text is escaped one character at a time, and entities are replaced one
after the other in the whole text. Main statements: `unescape_escape` and `unescape_escapeProps`, both are undone by
that, whatever the text; and in a page of live placeholders and error blocks between texts that do not open a placeholder
themselves, exactly the live ones are found, each where it stands and with the name and the props that it was made of.
-/

namespace SecureLayout

open Text (replaceAll replaceFrom stripStart)

/-! ### Replacing an entity -/

namespace Text

variable {old new w rest : List Char}

theorem replaceFrom_length (old new w rest : List Char) :
    replaceFrom old new w.length (w ++ rest) = replaceFrom old new 0 rest := by
  induction w with
  | nil => rfl
  | cons c w ih => exact ih

/-- Where the text to be replaced does not begin nothing is replaced. -/
theorem replaceFrom_append (a : Char) (old new : List Char) (hw : a ∉ w) (rest : List Char) :
    replaceFrom (a :: old) new 0 (w ++ rest) = w ++ replaceFrom (a :: old) new 0 rest := by
  induction w with
  | nil => rfl
  | cons c w ih =>
    have hc : a ≠ c := fun h => hw (h ▸ List.mem_cons_self)
    rw [List.cons_append, replaceFrom, stripStart, if_neg hc]
    exact congrArg (c :: ·) (ih fun h => hw (List.mem_cons_of_mem _ h))

theorem stripStart_append (p rest : List Char) : stripStart p (p ++ rest) = some rest := by
  induction p with
  | nil => rfl
  | cons a p ih => rw [List.cons_append, stripStart, if_pos rfl, ih]

/-- An occurrence at the beginning is replaced. -/
theorem replaceFrom_self (a : Char) (old new rest : List Char) :
    replaceFrom (a :: old) new 0 (a :: old ++ rest) = new ++ replaceFrom (a :: old) new 0 rest := by
  rw [List.cons_append, replaceFrom, ← List.cons_append, stripStart_append]
  exact congrArg (new ++ ·) (replaceFrom_length ..)

/-- Of two texts of which neither begins with the other, neither begins what the other one begins. -/
theorem stripStart_append_eq_none {p q : List Char} (hpq : stripStart p q = none) (hqp : stripStart q p = none)
    (rest : List Char) : stripStart p (q ++ rest) = none := by
  induction p generalizing q with
  | nil => cases hpq
  | cons a p ih =>
    cases q with
    | nil => cases hqp
    | cons b q =>
      rw [List.cons_append, stripStart]
      split_ifs with hab
      · subst hab
        rw [stripStart, if_pos rfl] at hpq hqp
        exact ih hpq hqp
      · rfl

end Text

namespace Component

/-- Characters that an entity stands for. -/
def special : List Char := ['\x7b', '\x7d', '\'', '"', '<', '>', '&']

theorem escapeChar_of_not_special {c : Char} (hc : c ∉ special) : escapeChar c = [c] := by
  unfold escapeChar
  split <;> simp_all [special]

/-- An entity begins with an ampersand and has no other. -/
theorem escapeChar_of_special : ∀ c ∈ special,
    escapeChar c = '&' :: (escapeChar c).tail ∧ '&' ∉ (escapeChar c).tail :=
  List.all_iff_forall_prop.1 (by decide)

theorem stripStart_escapeChar : ∀ x ∈ special, ∀ c ∈ special, c ≠ x →
    stripStart (escapeChar x) (escapeChar c) = none := by
  have hall : ∀ x ∈ special, special.all fun c => c == x || (stripStart (escapeChar x) (escapeChar c)).isNone :=
    List.all_iff_forall_prop.1 (by decide)
  intro x hx c hc hne
  simpa [hne] using List.all_eq_true.1 (hall x hx) c hc

/-- An entity is left alone when another one is replaced. -/
theorem replaceFrom_escapeChar {x c : Char} (hx : x ∈ special) (hc : c ∈ special) (hne : c ≠ x) (new rest : List Char) :
    replaceFrom (escapeChar x) new 0 (escapeChar c ++ rest) =
      escapeChar c ++ replaceFrom (escapeChar x) new 0 rest := by
  obtain ⟨hopen, htail⟩ := escapeChar_of_special c hc
  have hnone := Text.stripStart_append_eq_none (stripStart_escapeChar x hx c hc hne)
    (stripStart_escapeChar c hc x hx hne.symm) rest
  obtain ⟨hopen', -⟩ := escapeChar_of_special x hx
  rw [hopen, List.cons_append] at hnone ⊢
  rw [replaceFrom, hnone, Option.isSome_none, if_neg Bool.false_ne_true, hopen', Text.replaceFrom_append _ _ _ htail,
    List.cons_append]

/-- Escapes all but some characters. -/
def escapeBut (kept : List Char) (c : Char) : List Char :=
  if c ∈ kept then [c] else escapeChar c

/-- To replace an entity is not to have escaped its character. -/
theorem replaceAll_escapeBut {x : Char} (hx : x ∈ special) {kept : List Char} (hkept : '&' ∉ kept) (s : List Char) :
    replaceAll (escapeChar x) [x] (s.flatMap (escapeBut kept)) = s.flatMap (escapeBut (x :: kept)) := by
  obtain ⟨hopen, -⟩ := escapeChar_of_special x hx
  have hall : ∀ s, replaceAll (escapeChar x) [x] s = replaceFrom (escapeChar x) [x] 0 s := by
    rw [hopen]
    exact fun s => rfl
  have hpass : ∀ {c : Char}, c ≠ '&' → ∀ rest,
      replaceFrom (escapeChar x) [x] 0 ([c] ++ rest) = [c] ++ replaceFrom (escapeChar x) [x] 0 rest := by
    intro c hc rest
    rw [hopen]
    exact Text.replaceFrom_append _ _ _ (by simpa using hc.symm) rest
  rw [hall]
  induction s with
  | nil => exact Text.replaceFrom_nil ..
  | cons c s ih =>
    rw [List.flatMap_cons, List.flatMap_cons, ← ih]
    by_cases hk : c ∈ kept
    · rw [escapeBut, if_pos hk, escapeBut, if_pos (List.mem_cons_of_mem _ hk)]
      exact hpass (fun h => hkept (h ▸ hk)) _
    · by_cases hcx : c = x
      · subst hcx
        rw [escapeBut, if_neg hk, escapeBut, if_pos List.mem_cons_self, hopen]
        exact Text.replaceFrom_self ..
      · rw [escapeBut, if_neg hk, escapeBut, if_neg (by simp [hk, hcx])]
        by_cases hc : c ∈ special
        · exact replaceFrom_escapeChar hx hc hcx ..
        · rw [escapeChar_of_not_special hc]
          refine hpass ?_ _
          rintro rfl
          exact hc (by decide)

theorem unescape_eq (s : List Char) :
    unescape s = special.foldl (fun s c => replaceAll (escapeChar c) [c] s) s := rfl

/-- Replacing the entities undoes the escaping, also where only some characters were escaped. -/
theorem unescape_escapeBut {kept : List Char} (hkept : '&' ∉ kept) (s : List Char) :
    unescape (s.flatMap (escapeBut kept)) = s := by
  have hfold : ∀ (cs kept : List Char), (∀ c ∈ cs, c ∈ special ∧ c ≠ '&') → '&' ∉ kept →
      cs.foldl (fun s c => replaceAll (escapeChar c) [c] s) (s.flatMap (escapeBut kept)) =
        s.flatMap (escapeBut (cs.reverse ++ kept)) := by
    intro cs
    induction cs with
    | nil => exact fun kept _ _ => rfl
    | cons c cs ih =>
      intro kept hcs hkept
      obtain ⟨⟨hc, hamp⟩, hcs⟩ := List.forall_mem_cons.1 hcs
      rw [List.foldl_cons, replaceAll_escapeBut hc hkept, ih (c :: kept) hcs (by simp [hkept, hamp.symm])]
      simp
  have hsplit : special = special.dropLast ++ ['&'] := rfl
  have hall : ∀ c, escapeBut ('&' :: (special.dropLast.reverse ++ kept)) c = [c] := by
    intro c
    unfold escapeBut
    split_ifs with hc
    · rfl
    · refine escapeChar_of_not_special fun hs => hc ?_
      rcases List.mem_append.1 (hsplit ▸ hs) with h | h
      · exact List.mem_cons_of_mem _ (List.mem_append_left _ (List.mem_reverse.2 h))
      · exact List.mem_singleton.1 h ▸ List.mem_cons_self
  rw [unescape_eq, hsplit, List.foldl_append, hfold _ kept (List.all_iff_forall_prop.1 (by decide)) hkept, List.foldl_cons, List.foldl_nil,
    replaceAll_escapeBut (by decide) (by simp [special, hkept]), funext hall]
  exact List.flatMap_singleton' s

theorem escapeBut_nil : escapeBut [] = escapeChar := by
  funext c
  exact if_neg List.not_mem_nil

theorem escapeBut_props : escapeBut ['\x7b', '\x7d', '"', '<', '>'] = escapePropChar := by
  funext c
  unfold escapeBut escapePropChar
  split_ifs with hc
  · simp only [List.mem_cons, List.not_mem_nil, or_false] at hc
    rcases hc with rfl | rfl | rfl | rfl | rfl <;> rfl
  · split
    · rfl
    · rfl
    · next hamp hquote => exact escapeChar_of_not_special (by simp_all [special])

theorem unescape_escape (s : List Char) : unescape (escape s) = s := by
  rw [escape, ← escapeBut_nil]
  exact unescape_escapeBut List.not_mem_nil s

theorem unescape_escapeProps (s : List Char) : unescape (escapeProps s) = s := by
  rw [escapeProps, ← escapeBut_props]
  exact unescape_escapeBut (by decide) s

/-! ### Characters that do not stand in an escaped text -/

theorem not_mem_escape {x : Char} (hx : x ∈ special.dropLast) (s : List Char) : x ∉ escape s := by
  rw [escape, List.mem_flatMap]
  rintro ⟨c, -, hc⟩
  by_cases hs : c ∈ special
  · have hnone : ∀ x ∈ special.dropLast, special.all fun c => x ∉ escapeChar c := List.all_iff_forall_prop.1 (by decide)
    exact List.all_iff_forall_prop.1 (hnone x hx) c hs hc
  · rw [escapeChar_of_not_special hs, List.mem_singleton] at hc
    exact hs (hc ▸ List.dropLast_subset _ hx)

theorem quote_not_mem_escapeProps (s : List Char) : '\'' ∉ escapeProps s := by
  rw [escapeProps, List.mem_flatMap]
  rintro ⟨c, -, hc⟩
  unfold escapePropChar at hc
  split at hc
  · exact absurd hc (by decide)
  · exact absurd hc (by decide)
  · next hne => exact hne (List.mem_singleton.1 hc).symm

end Component

end SecureLayout

namespace SecureLayout.Component

open Json (Value)
open Text (byteLength stripStart)
open Template (byteLength_append)

variable {s w rest : List Char}

/-! ### Characters that belong to no placeholder -/

theorem segments_cons {c : Char} (h : ¬nameOpener <+: c :: s) : segments (c :: s) = .char c :: segments s := by
  rw [segments]
  split
  · next p r hp =>
    rw [source_append_of_placeholder? hp, Placeholder.source, List.append_assoc] at h
    exact absurd (List.prefix_append ..) h
  · rfl

/-- Where every place is passed by, the characters stay. -/
theorem segments_append (h : ∀ u, u <:+ w → u ≠ [] → ¬nameOpener <+: u ++ rest) :
    segments (w ++ rest) = w.map .char ++ segments rest := by
  induction w with
  | nil => rfl
  | cons c w ih =>
    have hhead : ¬nameOpener <+: c :: (w ++ rest) := h (c :: w) List.suffix_rfl (by simp)
    rw [List.cons_append, segments_cons hhead, ih fun u hu => h u (hu.trans (List.suffix_cons ..))]
    rfl

theorem segments_append_of_not_mem (h : '<' ∉ w) : segments (w ++ rest) = w.map .char ++ segments rest := by
  refine segments_append fun u hu hne hopen => ?_
  cases u with
  | nil => exact hne rfl
  | cons c u =>
    obtain ⟨r, hr⟩ := hopen
    obtain rfl : '<' = c := (List.cons.inj hr).1
    exact h (hu.subset List.mem_cons_self)

/-- The opener has an angle at its beginning only, so it does not begin in a text and go on behind it. -/
theorem segments_append_of_not_infix (hw : ¬nameOpener <:+: w) (hrest : rest = [] ∨ rest.head? = some '<') :
    segments (w ++ rest) = w.map .char ++ segments rest := by
  refine segments_append fun u hu hne ⟨r, hr⟩ => ?_
  have hpart {v : List Char} (hv : nameOpener ++ v = u) : False :=
    hw ((List.infix_append [] nameOpener v).trans (by simpa [hv] using hu.isInfix))
  rcases List.append_eq_append_iff.1 hr with ⟨v, hv, -⟩ | ⟨v, hv, hr⟩
  · exact hpart hv.symm
  · cases v with
    | nil => exact hpart (v := []) (by simpa using hv)
    | cons c v =>
      obtain rfl : c = '<' := by
        rcases hrest with rfl | hrest
        · cases hr
        · simpa [hr] using hrest
      obtain ⟨d, u, rfl⟩ := List.exists_cons_of_ne_nil hne
      have hmem : '<' ∈ nameOpener.tail := by simp [hv]
      exact absurd hmem (by decide)

theorem lt_not_mem_text (marker : Marker) : '<' ∉ marker.text.toList := by
  cases marker <;> decide

def errorOpener : List Char := "div class=\"layout-error\" data-layout-error=\"".toList
def errorName : List Char := "\" data-component-name=\"".toList
def errorBody : List Char := "\">".toList
def errorCloser : List Char := "/div>".toList

/-- What stands between the first angle of an error block and the one of its end. -/
def errorInner (marker : Marker) (name message : String) : List Char :=
  errorOpener ++ (marker.text.toList ++ (errorName ++ (escape name.toList ++ (errorBody ++ escape message.toList))))

theorem toList_parts (a b c d e f g : String) : (a ++ b ++ c ++ d ++ e ++ f ++ g).toList =
    a.toList ++ (b.toList ++ (c.toList ++ (d.toList ++ (e.toList ++ (f.toList ++ g.toList))))) := by
  simp only [String.toList_append, List.append_assoc]

theorem toList_errorBlock (marker : Marker) (name message : String) :
    (errorBlock marker name message).toList = '<' :: (errorInner marker name message ++ '<' :: errorCloser) := by
  have hopen : "<div class=\"layout-error\" data-layout-error=\"".toList = '<' :: errorOpener := by decide +kernel
  have hname : "\" data-component-name=\"".toList = errorName := rfl
  have hbody : "\">".toList = errorBody := rfl
  have hclose : "</div>".toList = '<' :: errorCloser := by decide +kernel
  have hescape (s : String) : (escapeText s).toList = escape s.toList := String.toList_ofList ..
  simp only [errorInner, List.append_assoc]
  refine (toList_parts ..).trans ?_
  rw [hopen, hname, hbody, hclose, hescape, hescape]
  rfl

theorem lt_not_mem_errorInner (marker : Marker) (name message : String) : '<' ∉ errorInner marker name message := by
  have hescape (s : List Char) : '<' ∉ escape s := not_mem_escape (by decide) s
  have hopen : '<' ∉ errorOpener := by decide +kernel
  have hname : '<' ∉ errorName := by decide +kernel
  have hbody : '<' ∉ errorBody := by decide
  simp only [errorInner, List.mem_append, hescape, lt_not_mem_text, hopen, hname, hbody, or_false, not_false_eq_true]

/-- No placeholder begins in an error block. -/
theorem segments_errorBlock (marker : Marker) (name message : String) (rest : List Char) :
    segments ((errorBlock marker name message).toList ++ rest) =
      (errorBlock marker name message).toList.map .char ++ segments rest := by
  have hopen (r : List Char) : ¬nameOpener <+: '<' :: (errorOpener ++ r) := by
    have hno : nameOpener.isPrefixOf ('<' :: (errorOpener ++ r)) = false := rfl
    rw [← List.isPrefixOf_iff_prefix, hno]
    exact Bool.false_ne_true
  have hclose (r : List Char) : ¬nameOpener <+: '<' :: (errorCloser ++ r) := by
    have hno : nameOpener.isPrefixOf ('<' :: (errorCloser ++ r)) = false := rfl
    rw [← List.isPrefixOf_iff_prefix, hno]
    exact Bool.false_ne_true
  have hbegin : segments ('<' :: (errorInner marker name message ++ '<' :: (errorCloser ++ rest))) =
      .char '<' :: segments (errorInner marker name message ++ '<' :: (errorCloser ++ rest)) := by
    rw [errorInner, List.append_assoc]
    exact segments_cons (hopen _)
  have hinner : segments (errorInner marker name message ++ '<' :: (errorCloser ++ rest)) =
      (errorInner marker name message).map .char ++ segments ('<' :: (errorCloser ++ rest)) :=
    segments_append_of_not_mem (lt_not_mem_errorInner marker name message)
  have hend : segments (errorCloser ++ rest) = errorCloser.map .char ++ segments rest :=
    segments_append_of_not_mem (by decide)
  rw [toList_errorBlock, List.cons_append, List.append_assoc, List.cons_append, hbegin, hinner,
    segments_cons (hclose rest), hend]
  simp

/-! ### Placeholders -/

theorem untilQuote_append {q : Char} (h : q ∉ w) (rest : List Char) :
    untilQuote q (w ++ q :: rest) = some (w, rest) := by
  induction w with
  | nil => simp [untilQuote]
  | cons c w ih =>
    have hc : c ≠ q := fun hc => h (hc ▸ List.mem_cons_self)
    rw [List.cons_append, untilQuote, if_neg hc, ih fun hm => h (List.mem_cons_of_mem _ hm)]
    rfl

/-- No quote in the name or the props ends them early. -/
structure Placeholder.Closed (p : Placeholder) : Prop where
  name : '"' ∉ p.rawName
  props : '\'' ∉ p.rawProps

theorem Placeholder.Closed.placeholder? {p : Placeholder} (h : p.Closed) (rest : List Char) :
    placeholder? (p.source ++ rest) = some (p, rest) := by
  simp only [Component.placeholder?, Placeholder.source, List.append_assoc, List.cons_append,
    Text.stripStart_append, untilQuote_append h.name, untilQuote_append h.props, Option.bind_eq_bind, Option.bind_some,
    Option.pure_def]

theorem Placeholder.Closed.segments_append {p : Placeholder} (h : p.Closed) (rest : List Char) :
    segments (p.source ++ rest) = .placeholder p :: segments rest := by
  have hfound := h.placeholder? rest
  obtain ⟨c, s, hs⟩ : ∃ c s, p.source ++ rest = c :: s := ⟨_, _, rfl⟩
  rw [hs] at hfound ⊢
  rw [segments]
  split
  · next p' r hp =>
    obtain ⟨rfl, rfl⟩ : p = p' ∧ rest = r := by simpa [hfound] using hp
    rfl
  · next hp => simp [hfound] at hp

/-- The placeholder of a component as it stands in a page. -/
def placed (name : String) (props : Value) : Placeholder :=
  ⟨escape name.toList, escapeProps props.render⟩

theorem source_placed (name : String) (props : Value) :
    (placed name props).source = (livePlaceholder name props).toList :=
  (String.toList_ofList ..).symm

theorem closed_placed (name : String) (props : Value) : (placed name props).Closed :=
  ⟨not_mem_escape (by decide) _, quote_not_mem_escapeProps _⟩

theorem name_placed (name : String) (props : Value) : (placed name props).name = name := by
  rw [Placeholder.name, placed, unescape_escape, String.ofList_toList]

theorem props_placed (name : String) {props : Value} (ho : props.Ordered) (hi : props.Integral)
    (hd : props.depth ≤ Json.Reader.greatestDepth) : (placed name props).props = .ok props := by
  have hread := Value.parse_compact ho hi hd
  rw [Value.compact] at hread
  rw [Placeholder.props, placed, unescape_escapeProps, hread]

/-! ### Pages -/

/-- Markup that stands in a page. -/
inductive Mark where
  | live (name : String) (props : Value)
  | error (marker : Marker) (name message : String)

def Mark.text : Mark → String
  | live name props => livePlaceholder name props
  | error marker name message => errorBlock marker name message

/-- A text, and marks each with the text behind it. -/
def page (head : String) : List (Mark × String) → String
  | [] => head
  | (m, t) :: rest => head ++ (m.text ++ page t rest)

/-- First and last octet, name and props of each live placeholder in a page that begins at an octet. -/
def lives (at_ : Nat) (head : String) : List (Mark × String) → List (Nat × Nat × String × Value)
  | [] => []
  | (m, t) :: rest =>
    let first := at_ + byteLength head.toList
    let last := first + byteLength m.text.toList
    match m with
    | .live name props => (first, last, name, props) :: lives last t rest
    | .error _ _ _ => lives last t rest

theorem locate_append (at_ : Nat) (w : List Char) (ks : List Segment) :
    locate at_ (w.map .char ++ ks) = locate (at_ + byteLength w) ks := by
  induction w generalizing at_ with
  | nil => rfl
  | cons c w ih =>
    have hlength := byteLength_append [c] w
    have hchar : byteLength [c] = c.utf8Size := Nat.zero_add _
    rw [List.map_cons, List.cons_append, locate, ih, Nat.add_assoc, ← hchar, ← hlength]
    rfl

/-- What is to be read of a placeholder that was found. -/
def Located.view (l : Located) : Nat × Nat × String × Except String Value :=
  (l.first, l.last, l.placeholder.name, l.placeholder.props)

theorem head?_text (m : Mark) : m.text.toList.head? = some '<' := by
  cases m with
  | live name props => rw [Mark.text, ← source_placed]; rfl
  | error marker name message => rw [Mark.text, toList_errorBlock]; rfl

/-- The texts of a page do not open a placeholder. -/
def Silent (t : String) : Prop := ¬nameOpener <:+: t.toList

theorem Silent.part {t u : List Char} (h : Silent (String.ofList u)) (htu : t <:+: u) : Silent (String.ofList t) := by
  unfold Silent at *
  rw [String.toList_ofList] at *
  exact fun hopen => h (hopen.trans htu)

/-- What is found in a page is what its live placeholders are made of. -/
theorem locate_page (at_ : Nat) {head : String} (hhead : Silent head) {marks : List (Mark × String)}
    (htexts : ∀ m ∈ marks, Silent m.2) :
    locate at_ (segments (page head marks).toList) =
      (lives at_ head marks).map fun l => ⟨l.1, l.2.1, placed l.2.2.1 l.2.2.2⟩ := by
  induction marks generalizing at_ head with
  | nil =>
    have hall := segments_append_of_not_infix hhead (.inl rfl)
    rw [List.append_nil] at hall
    rw [page, hall, locate_append, segments]
    rfl
  | cons mark marks ih =>
    obtain ⟨m, t⟩ := mark
    obtain ⟨ht, htexts⟩ := List.forall_mem_cons.1 htexts
    have hrest := fun at_ => ih at_ ht htexts
    have hfirst : ((m.text.toList ++ (page t marks).toList).head?) = some '<' := by
      rw [List.head?_append, head?_text]
      rfl
    rw [page, String.toList_append, String.toList_append, segments_append_of_not_infix hhead (.inr hfirst), locate_append]
    cases m with
    | error marker name message =>
      rw [Mark.text, segments_errorBlock, locate_append]
      exact hrest _
    | live name props =>
      rw [Mark.text, ← source_placed, (closed_placed name props).segments_append]
      dsimp only [locate, lives]
      rw [List.map_cons, hrest, source_placed]
      rfl

theorem exists_mem_of_mem_lives {at_ : Nat} {head : String} {marks : List (Mark × String)}
    {l : Nat × Nat × String × Value} (hl : l ∈ lives at_ head marks) :
    ∃ t, (Mark.live l.2.2.1 l.2.2.2, t) ∈ marks := by
  induction marks generalizing at_ head with
  | nil => exact absurd hl List.not_mem_nil
  | cons mark marks ih =>
    obtain ⟨m, t⟩ := mark
    cases m with
    | error marker name message =>
      obtain ⟨t', hmem⟩ := ih hl
      exact ⟨t', List.mem_cons_of_mem _ hmem⟩
    | live name props =>
      rcases List.mem_cons.1 hl with rfl | hl
      · exact ⟨t, List.mem_cons_self⟩
      · obtain ⟨t', hmem⟩ := ih hl
        exact ⟨t', List.mem_cons_of_mem _ hmem⟩

/-- Props that may be read back are read as they were written. -/
theorem view_page (at_ : Nat) {head : String} (hhead : Silent head) {marks : List (Mark × String)}
    (htexts : ∀ m ∈ marks, Silent m.2)
    (hprops : ∀ name props t, (.live name props, t) ∈ marks →
      props.Within Json.Reader.greatestDepth ∧ props.Integral) :
    (locate at_ (segments (page head marks).toList)).map Located.view =
      (lives at_ head marks).map fun l => (l.1, l.2.1, l.2.2.1, .ok l.2.2.2) := by
  rw [locate_page at_ hhead htexts, List.map_map]
  refine List.map_congr_left fun l hl => ?_
  obtain ⟨t, hmem⟩ := exists_mem_of_mem_lives hl
  obtain ⟨⟨ho, hd⟩, hi⟩ := hprops _ _ t hmem
  rw [Function.comp_apply, Located.view, name_placed, props_placed _ ho hi hd]

/-- Whatever is found in a page has the name of one of its live placeholders. -/
theorem exists_live_of_found {head : String} (hhead : Silent head) {marks : List (Mark × String)}
    (htexts : ∀ m ∈ marks, Silent m.2) {l : Located} (hl : l ∈ findPlaceholders (page head marks)) :
    ∃ props t, (Mark.live l.placeholder.name props, t) ∈ marks := by
  have hlocated : findPlaceholders (page head marks) = _ := locate_page 0 hhead htexts
  rw [hlocated] at hl
  obtain ⟨live, hlive, rfl⟩ := List.mem_map.1 hl
  obtain ⟨t, hmem⟩ := exists_mem_of_mem_lives hlive
  rw [name_placed]
  exact ⟨_, t, hmem⟩

/-- Exactly the live placeholders of a page are found, in order, and each is read as it was written. -/
theorem findPlaceholders_page {head : String} (hhead : Silent head) {marks : List (Mark × String)}
    (htexts : ∀ m ∈ marks, Silent m.2)
    (hprops : ∀ name props t, (.live name props, t) ∈ marks →
      props.Within Json.Reader.greatestDepth ∧ props.Integral) :
    (findPlaceholders (page head marks)).map Located.view =
      (lives 0 head marks).map fun (first, last, name, props) => (first, last, name, .ok props) :=
  view_page 0 hhead htexts hprops

/-- Entities and an opener in the name, a quote and an entity in the props, and an error block that speaks of both. -/
def quotedMarks : List (Mark × String) :=
  [(.live "&#39;<div data-component=\"" (.object [("k", .text "'&amp;#39;")]), "b"),
    (.error .unknownComponent "<div data-component=\"A\"" "'", "c")]

theorem findPlaceholders_page_quoted : (findPlaceholders (page "a" quotedMarks)).map Located.view =
    [(1, 108, "&#39;<div data-component=\"", .ok (.object [("k", .text "'&amp;#39;")]))] := by
  refine (findPlaceholders_page (by unfold Silent; decide +kernel) (by unfold Silent; decide +kernel)
    fun name props t hm => ?_).trans rfl
  simp only [quotedMarks, List.mem_cons, Prod.mk.injEq, Mark.live.injEq, List.not_mem_nil, or_false, reduceCtorEq,
    false_and] at hm
  obtain ⟨⟨rfl, rfl⟩, rfl⟩ := hm
  have hordered : Value.Ordered (.object [("k", .text "'&amp;#39;")]) :=
    .object (List.pairwise_singleton ..) (by simp [Value.Ordered.text])
  exact ⟨⟨hordered, by decide⟩, .object (by simp [Value.toRawMembers, Value.toRaw, Json.Raw.Integral.text])⟩

end SecureLayout.Component
