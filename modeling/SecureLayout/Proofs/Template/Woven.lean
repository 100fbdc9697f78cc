import SecureLayout.Proofs.Template.Heads
import SecureLayout.Template.Expansion

/-!
Token streams in which every loop body begins with a tick, and statements that come out of them. Main
statement: words change neither the place in a stream nor the names that are allowed there.
-/

namespace SecureLayout.Template

/-! ### Streams -/

/-- A name that layouts may use. -/
def IsOpenName (n : String) : Prop :=
  Text.stripStart reservedBeginning n.toList = none

theorem IsOpenName.ne_tick {n : String} (h : IsOpenName n) : n ≠ tickFunction := by
  rintro rfl
  revert h
  unfold IsOpenName
  decide

/-- A word that layouts may use. -/
structure Token.IsOpen (t : Token) : Prop where
  word : t.isWord = true
  name : ∀ n, t = .name n → IsOpenName n

/-- The tag that counts a loop body. -/
def tickTokens : List Token :=
  [.blockStart, .name "set", .name "__lg_tick", .symbol .assign, .name tickFunction, .symbol .parenOpen,
    .symbol .parenClose, .blockEnd]

/-- Between tags, at the beginning of a loop body, in a tag, or in the tag that opens a loop. -/
inductive Place where
  | text
  | body
  | words
  | loop
  deriving DecidableEq, Repr

def Place.inTag : Place → Bool
  | .text => false
  | .body => false
  | .words => true
  | .loop => true

/-- Every loop body begins with a tick, and no other name is reserved than the one that calls of components
begin with. -/
inductive Woven : Place → List Token → Prop
  | nil : Woven .text []
  | data {s : String} {ts : List Token} (h : Woven .text ts) : Woven .text (.data s :: ts)
  | expr {ts : List Token} (h : Woven .words ts) : Woven .text (.exprStart :: ts)
  | component {ts : List Token} (h : Woven .words ts) :
      Woven .text (.exprStart :: .name placeholderFunction :: ts)
  | block {ts : List Token} (hw : ts.head? ≠ some (.name "for")) (h : Woven .words ts) :
      Woven .text (.blockStart :: ts)
  | loop {ts : List Token} (h : Woven .loop ts) : Woven .text (.blockStart :: .name "for" :: ts)
  | word {p : Place} {t : Token} {ts : List Token} (hp : p.inTag = true) (ht : t.IsOpen) (h : Woven p ts) :
      Woven p (t :: ts)
  | exprEnd {ts : List Token} (h : Woven .text ts) : Woven .words (.exprEnd :: ts)
  | blockEnd {ts : List Token} (h : Woven .text ts) : Woven .words (.blockEnd :: ts)
  | loopEnd {ts : List Token} (h : Woven .body ts) : Woven .loop (.blockEnd :: ts)
  | tick {ts : List Token} (h : Woven .text ts) : Woven .body (tickTokens ++ ts)

namespace Woven

variable {p : Place} {ts ws : List Token}

theorem of_word {t : Token} (hp : p.inTag = true) (ht : t.isWord = true) (h : Woven p (t :: ts)) :
    t.IsOpen ∧ Woven p ts := by
  cases h with
  | word _ hopen h => exact ⟨hopen, h⟩
  | _ => cases ht

theorem of_words (hp : p.inTag = true) (hw : ∀ t ∈ ws, t.isWord = true) (h : Woven p (ws ++ ts)) :
    (∀ t ∈ ws, t.IsOpen) ∧ Woven p ts := by
  induction ws with
  | nil => exact ⟨nofun, h⟩
  | cons t ws ih =>
    obtain ⟨hopen, h⟩ := of_word hp (hw t List.mem_cons_self) h
    obtain ⟨hall, h⟩ := ih (fun x hx => hw x (List.mem_cons_of_mem _ hx)) h
    refine ⟨?_, h⟩
    intro x hx
    rcases List.mem_cons.1 hx with rfl | hx
    · exact hopen
    · exact hall x hx

theorem append_words (hp : p.inTag = true) (hw : ∀ t ∈ ws, t.IsOpen) (h : Woven p ts) : Woven p (ws ++ ts) := by
  induction ws with
  | nil => exact h
  | cons t ws ih =>
    exact .word hp (hw t List.mem_cons_self) (ih fun x hx => hw x (List.mem_cons_of_mem _ hx))

theorem of_exprEnd (h : Woven .words (.exprEnd :: ts)) : Woven .text ts := by
  cases h with
  | word _ ht _ => cases ht.word
  | exprEnd h => exact h

theorem of_blockEnd (h : Woven .words (.blockEnd :: ts)) : Woven .text ts := by
  cases h with
  | word _ ht _ => cases ht.word
  | blockEnd h => exact h

theorem of_loopEnd (h : Woven .loop (.blockEnd :: ts)) : Woven .body ts := by
  cases h with
  | word _ ht _ => cases ht.word
  | loopEnd h => exact h

/-- An output names no tick, whether it calls a component or not. -/
theorem of_output (hw : ∀ t ∈ ws, t.isWord = true) (h : Woven .text (.exprStart :: (ws ++ .exprEnd :: ts))) :
    (.name tickFunction ∉ ws) ∧ Woven .text ts := by
  have hnone : ∀ {us : List Token}, (∀ t ∈ us, t.IsOpen) → Token.name tickFunction ∉ us :=
    fun hall hmem => ((hall _ hmem).name _ rfl).ne_tick rfl
  generalize hus : ws ++ .exprEnd :: ts = us at h
  cases h with
  | word hp => cases hp
  | expr h =>
    subst hus
    obtain ⟨hall, h⟩ := of_words rfl hw h
    exact ⟨hnone hall, h.of_exprEnd⟩
  | component h =>
    cases ws with
    | nil => cases (List.cons.inj hus).1
    | cons t ws =>
      obtain ⟨rfl, rfl⟩ := List.cons.inj hus
      obtain ⟨hall, h⟩ := of_words rfl (fun x hx => hw x (List.mem_cons_of_mem _ hx)) h
      refine ⟨?_, h.of_exprEnd⟩
      intro hmem
      rcases List.mem_cons.1 hmem with heq | hmem
      · exact absurd heq (by decide)
      · exact hnone hall hmem

end Woven

/-! ### Statements -/

def Macro.headNames : Macro → List String
  | .mk _ n ps ds _ => n :: (ps ++ exprsNames ds)

/-- The names in the head of a statement. -/
def Stmt.headNames : Stmt → List String
  | .text _ => []
  | .emit e => e.names
  | .forLoop _ (.mk t e k _ _ _) => t.names ++ (e.names ++ optionNames k)
  | .ifThen e _ _ => e.names
  | .withValues _ bs _ => bindingsNames bs
  | .set _ t e => t.names ++ e.names
  | .setBlock _ t f _ => t.names ++ optionNames f
  | .autoescape e _ => e.names
  | .filterBlock _ f _ => f.names
  | .block _ _ _ => []
  | .inherit _ e => e.names
  | .includeFile _ e _ => e.names
  | .importAs _ e t => e.names ++ t.names
  | .importNames _ e ns => e.names ++ namesImported ns
  | .define _ m => m.headNames
  | .callBlock _ c m => c.names ++ m.headNames
  | .run _ c => c.names

/-- The statements in a statement, without the tick of a loop. -/
def Stmt.inner : Stmt → List Stmt
  | .forLoop _ (.mk _ _ _ _ b o) => b.tail ++ o
  | .ifThen _ y n => y ++ n
  | .withValues _ _ b => b
  | .setBlock _ _ _ b => b
  | .autoescape _ b => b
  | .filterBlock _ _ b => b
  | .block _ _ b => b
  | .define _ m => m.body
  | .callBlock _ _ m => m.body
  | _ => []

/-- The statement that counts a loop body. -/
def Stmt.IsTick : Stmt → Prop
  | .set _ (.name _ n) (.call _ (.var _ f) []) => n = "__lg_tick" ∧ f = tickFunction
  | _ => False

/-- A loop begins its body with a tick. -/
def Stmt.Counts : Stmt → Prop
  | .forLoop _ (.mk _ _ _ _ b _) => ∃ t ∈ b.head?, t.IsTick
  | _ => True

/-- Every loop counts its bodies, and nothing else names the function that counts. -/
inductive Stmt.Metered : Stmt → Prop
  | mk {s : Stmt} (head : tickFunction ∉ s.headNames) (counts : s.Counts) (inner : ∀ x ∈ s.inner, x.Metered) :
      s.Metered

end SecureLayout.Template
