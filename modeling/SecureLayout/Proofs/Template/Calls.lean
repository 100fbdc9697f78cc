import SecureLayout.Proofs.Template.Props
import SecureLayout.Proofs.Template.Reading
import SecureLayout.Proofs.Template.Woven

/-!
The tags that the expansion writes: the tick of a loop and the call of a component. Main statements: both are
read as they were meant, and a brace in front of a call makes no template.
-/

namespace SecureLayout.Template

open Lexer

variable {kind : TagKind} {d : Nat} {s rest : List Char} {ws : List Token} {mark : Mark}

/-! ### Names and symbols -/

/-- A name stands at the beginning of a tag or goes on in it. -/
theorem wordAt_name {c : Char} {w : List Char} (hc : Text.isNameStart c = true)
    (hw : ∀ a ∈ w, Text.isNamePart a = true) (hs : ∀ a r, s = a :: r → Text.isNamePart a = false) :
    WordAt (c :: w ++ s) (.name (String.ofList (c :: w))) (c :: w).length := by
  have htake : (c :: (w ++ s)).takeWhile Text.isNamePart = c :: w := by
    have hend : s.takeWhile Text.isNamePart = [] := by
      cases s with
      | nil => rfl
      | cons a r => exact List.takeWhile_cons_of_neg (by simp [hs a r rfl])
    rw [List.takeWhile_cons_of_pos (isNamePart_of_isNameStart hc), List.takeWhile_append_of_pos hw, hend,
      List.append_nil]
  have hword := WordAt.name (r := w ++ s) hc
  rw [htake] at hword
  exact hword

theorem closing?_name {c : Char} (s : List Char) (hc : Text.isNameStart c = true) : closing? kind (c :: s) = none := by
  refine closing?_eq_none s ?_
  intro hmem
  simp only [List.mem_cons, List.not_mem_nil, or_false] at hmem
  rcases hmem with rfl | rfl | rfl | rfl <;> cases hc

theorem Coded.name {c : Char} {w : List Char} (hc : Text.isNameStart c = true)
    (hw : ∀ a ∈ w, Text.isNamePart a = true) (hs : ∀ a r, s = a :: r → Text.isNamePart a = false)
    (h : Coded kind d s ws mark rest) : Coded kind d (c :: w ++ s) (.name (String.ofList (c :: w)) :: ws) mark rest := by
  refine .word (fun _ => closing?_name _ hc) (wordAt_name hc hw hs) ?_
  rw [List.drop_left' rfl]
  exact h

theorem Coded.of_name {c : Char} {w : List Char} (hc : Text.isNameStart c = true)
    (hw : ∀ a ∈ w, Text.isNamePart a = true) (hs : ∀ a r, s = a :: r → Text.isNamePart a = false)
    (h : Coded kind d (c :: w ++ s) ws mark rest) :
    ∃ ws', ws = .name (String.ofList (c :: w)) :: ws' ∧ Coded kind d s ws' mark rest := by
  obtain ⟨ws', hws, h⟩ := h.of_word (fun _ => closing?_name _ hc) (wordAt_name hc hw hs)
  change Coded kind d ((c :: w ++ s).drop (c :: w).length) ws' mark rest at h
  rw [List.drop_left' rfl] at h
  exact ⟨ws', hws, h⟩

/-! ### The tick of a loop -/

/-- The tag that counts a loop body; it closes as the tag of the loop does. -/
def tickTag (trail : Mark) : Tag :=
  ⟨.block, .none, " set __lg_tick = __lg_iter() ".toList, trail⟩

theorem tickTag_source (trail : Mark) : (tickTag trail).source = Expansion.tick trail := by
  cases trail <;> rfl

theorem tickTag_words (trail : Mark) : (tickTag trail).Words (tickTokens.tail.dropLast) := by
  intro rest
  have hclosing : Coded .block 0 (trail.source ++ '%' :: '\x7d' :: rest) [] trail rest :=
    .close (closing?_of_source .block trail rest)
  have hend : Coded .block 0 ("() ".toList ++ (trail.source ++ '%' :: '\x7d' :: rest))
      [.symbol .parenOpen, .symbol .parenClose] trail rest :=
    .word (fun _ => closing?_eq_none _ (by decide)) (.symbol rfl)
      (.word nofun (.symbol rfl) (.blank rfl hclosing))
  have hcall : Coded .block 0 ("__lg_iter() ".toList ++ (trail.source ++ '%' :: '\x7d' :: rest))
      [.name tickFunction, .symbol .parenOpen, .symbol .parenClose] trail rest :=
    Coded.name (c := '_') (w := "_lg_iter".toList) (by decide) (List.all_iff_forall_prop.1 (by decide))
      (by rintro a r ⟨⟩; decide) hend
  have hassign : Coded .block 0 ("= __lg_iter() ".toList ++ (trail.source ++ '%' :: '\x7d' :: rest))
      [.symbol .assign, .name tickFunction, .symbol .parenOpen, .symbol .parenClose] trail rest :=
    .word (fun _ => closing?_eq_none _ (by decide)) (.symbol rfl) (.blank rfl hcall)
  have htarget : Coded .block 0 ("__lg_tick = __lg_iter() ".toList ++ (trail.source ++ '%' :: '\x7d' :: rest))
      [.name "__lg_tick", .symbol .assign, .name tickFunction, .symbol .parenOpen, .symbol .parenClose]
      trail rest :=
    Coded.name (c := '_') (w := "_lg_tick".toList) (by decide) (List.all_iff_forall_prop.1 (by decide))
      (by rintro a r ⟨⟩; decide) (.blank rfl hassign)
  have hset : Coded .block 0 ("set __lg_tick = __lg_iter() ".toList ++ (trail.source ++ '%' :: '\x7d' :: rest))
      tickTokens.tail.dropLast trail rest :=
    Coded.name (c := 's') (w := "et".toList) (by decide) (List.all_iff_forall_prop.1 (by decide))
      (by rintro a r ⟨⟩; decide) (.blank rfl htarget)
  rw [Tag.inner_append]
  exact .blank rfl hset

theorem Tag.Words.isScanned {t : Tag} (hlead : ∀ rest, leadMark (t.lead.source ++ (t.inner ++ rest)) =
    (t.lead, t.inner ++ rest)) (h : t.Words ws) : t.IsScanned := by
  refine ⟨hlead, fun rest => ?_⟩
  obtain ⟨b, hb⟩ := (h rest).scanned
  have hsource := body?_source hb
  rw [Tag.inner_append] at hsource
  rw [hb, List.append_cancel_right hsource]

theorem tickTag_isScanned (trail : Mark) : (tickTag trail).IsScanned :=
  (tickTag_words trail).isScanned fun _ => rfl

theorem tickTag_not_isBare (trail : Mark) : ¬ (tickTag trail).IsBare := by
  intro h
  have hraw := h.isRaw (tickTag_isScanned trail)
  revert hraw
  cases trail <;> decide

/-! ### The call of a component -/

open Directive

/-- What stands between the parentheses of a call. -/
def callInner (name : String) (props : List (String × List Char)) : List Char :=
  '"' :: (name.toList ++ '"' :: ',' :: ' ' :: '\x7b' :: (renderProps props ++ ['\x7d']))

/-- The tag that calls a component. -/
def callTag (name : String) (props : List (String × List Char)) : Tag :=
  ⟨.expr, .none, ' ' :: (placeholderFunction.toList ++ '(' :: (callInner name props ++ [')', ' '])), .none⟩

theorem callTag_source (name : String) (props : List (String × List Char)) :
    (callTag name props).source = (Replacement.call name props).source := by
  have hopen : "\x7b\x7b ".toList = ['\x7b', '\x7b', ' '] := by decide
  have hclose : "\x7d) \x7d\x7d".toList = ['\x7d', ')', ' ', '\x7d', '\x7d'] := by decide
  simp [Tag.source, callTag, callInner, Replacement.source, hopen, hclose, TagKind.opens, TagKind.closes, Mark.source]

theorem staysInside_of_isNamePart {w : List Char} (h : ∀ c ∈ w, Text.isNamePart c = true ∨ c = '-' ∨ c = '.') :
    StaysInside w := by
  refine .of_plain fun c hc => ?_
  rcases h c hc with hp | rfl | rfl
  · constructor <;> rintro rfl <;> revert hp <;> decide
  · decide
  · decide

variable {name : String} {props : List (String × List Char)}

theorem renderProp_inner {p : String × List Char} (h : GoodProp p.1 p.2) : Inner (renderProp p) := by
  have hcolon : isFlat ':' := ⟨rfl, by decide⟩
  have hblank : isFlat ' ' := ⟨rfl, by decide⟩
  have hkey := staysInside_of_isNamePart fun c hc => .inl (h.key c hc)
  exact .string hkey.stringBody? (.char hcolon (.char hblank h.value.inner))

theorem renderProps_inner (h : ∀ p ∈ props, GoodProp p.1 p.2) : Inner (renderProps props) := by
  induction props with
  | nil => exact .nil
  | cons p props ih =>
    have hp := renderProp_inner (h p List.mem_cons_self)
    cases props with
    | nil => exact hp
    | cons q props =>
      have hcomma : isFlat ',' := ⟨rfl, by decide⟩
      have hblank : isFlat ' ' := ⟨rfl, by decide⟩
      exact hp.append (.char hcomma (.char hblank (ih fun x hx => h x (List.mem_cons_of_mem _ hx))))

theorem callInner_inner (hname : GoodName name) (h : ∀ p ∈ props, GoodProp p.1 p.2) :
    Inner (callInner name props) := by
  have hcomma : isFlat ',' := ⟨rfl, by decide⟩
  have hblank : isFlat ' ' := ⟨rfl, by decide⟩
  exact .string (staysInside_of_isNamePart hname).stringBody?
    (.char hcomma (.char hblank (.nested (by decide) (renderProps_inner h) .nil)))

theorem callTag_inner (rest : List Char) : (callTag name props).inner ++ rest =
    ' ' :: (placeholderFunction.toList ++ '(' :: (callInner name props ++ ')' :: ' ' :: '\x7d' :: '\x7d' :: rest)) := by
  simp [Tag.inner, callTag, Mark.source, TagKind.closes]

theorem placeholderFunction_isNamePart : ∀ c ∈ placeholderFunction.toList, Text.isNamePart c = true := by
  exact List.all_iff_forall_prop.1 (by decide)

theorem callTag_isScanned (hname : GoodName name) (h : ∀ p ∈ props, GoodProp p.1 p.2) :
    (callTag name props).IsScanned := by
  refine ⟨fun _ => rfl, fun rest => ?_⟩
  have hend : body? .expr .code 0 (' ' :: '\x7d' :: '\x7d' :: rest) = some ([' '], .none, rest) := rfl
  have hinner : body? .expr .code (0 + 1) (callInner name props ++ ')' :: ' ' :: '\x7d' :: '\x7d' :: rest) =
      some (callInner name props ++ [')', ' '], .none, rest) := by
    rw [(callInner_inner hname h).body?, body?_deep]
    change ((body? .expr .code 0 (' ' :: '\x7d' :: '\x7d' :: rest)).map _).map _ = _
    rw [hend]
    rfl
  have hcall : body? .expr .code 0 (placeholderFunction.toList ++
      '(' :: (callInner name props ++ ')' :: ' ' :: '\x7d' :: '\x7d' :: rest)) =
      some (placeholderFunction.toList ++ '(' :: (callInner name props ++ [')', ' ']), .none, rest) := by
    rw [body?_calm _ (fun c hc => .inl (placeholderFunction_isNamePart c hc)),
      body?_code fun _ => closing?_eq_none _ (by decide)]
    · change ((body? .expr .code (0 + 1) _).map _).map _ = _
      rw [hinner]
      rfl
    · intro v a ha hv
      have hlast := congrArg List.getLast? hv
      rw [List.getLast?_concat] at hlast
      rcases ha with rfl | rfl <;> revert hlast <;> decide
  rw [callTag_inner, body?_code fun _ => closing?_eq_none _ (by decide)]
  change (body? .expr .code 0 _).map _ = _
  rw [hcall]
  rfl

theorem renderProp_skips {p : String × List Char} (h : GoodProp p.1 p.2) : Skips (renderProp p) := by
  intro r hr hnone
  have hkey := staysInside_of_isNamePart fun c hc => .inl (h.key c hc)
  have hvalue := h.value.skips r hr hnone
  change reservedName? (.outside (.string '"' false)) ((p.1.toList ++ '"' :: ':' :: ' ' :: p.2) ++ r) = none
  rw [List.append_assoc, List.cons_append, reservedName?_string (hkey.stringBody? [])]
  exact hvalue

theorem renderProps_skips (h : ∀ p ∈ props, GoodProp p.1 p.2) : Skips (renderProps props) := by
  induction props with
  | nil => exact fun r _ hnone => hnone
  | cons p props ih =>
    have hp := renderProp_skips (h p List.mem_cons_self)
    cases props with
    | nil => exact hp
    | cons q props =>
      intro r hr hnone
      have hrest := ih (fun x hx => h x (List.mem_cons_of_mem _ hx)) r hr hnone
      change reservedName? _ ((renderProp p ++ ',' :: ' ' :: renderProps (q :: props)) ++ r) = none
      rw [List.append_assoc]
      refine hp _ ?_ hrest
      rintro a s ⟨⟩
      decide

theorem callInner_unreserved (hname : GoodName name) (h : ∀ p ∈ props, GoodProp p.1 p.2) :
    reservedName? (.outside .code) ('(' :: (callInner name props ++ [')', ' '])) = none := by
  have hstring := staysInside_of_isNamePart hname
  have hprops := renderProps_skips h ('\x7d' :: [')', ' ']) (by rintro a s ⟨⟩; decide) rfl
  change reservedName? (.outside (.string '"' false))
    ((name.toList ++ '"' :: ',' :: ' ' :: '\x7b' :: (renderProps props ++ ['\x7d'])) ++ [')', ' ']) = none
  rw [List.append_assoc, List.cons_append, reservedName?_string (hstring.stringBody? [])]
  change reservedName? (.outside .code) ((renderProps props ++ ['\x7d']) ++ [')', ' ']) = none
  rw [List.append_assoc]
  exact hprops

/-- A call begins with the name of its function; what follows is open to layouts. -/
theorem callTag_words (hname : GoodName name) (h : ∀ p ∈ props, GoodProp p.1 p.2)
    (hw : (callTag name props).Words ws) :
    ∃ ws', ws = .name placeholderFunction :: ws' ∧ ∀ t ∈ ws', t.IsOpen := by
  have hcoded := hw []
  rw [callTag_inner] at hcoded
  obtain ⟨ws', rfl, hrest⟩ := Coded.of_name (c := '_') (w := "_lg_component".toList) (by decide) (List.all_iff_forall_prop.1 (by decide))
    (by rintro a r ⟨⟩; decide) (hcoded.of_blank rfl)
  refine ⟨ws', rfl, fun t ht => ⟨hrest.isWord t ht, ?_⟩⟩
  rintro n rfl
  obtain ⟨b, hb⟩ := hrest.scanned
  have hsource := body?_source hb
  have hbody : b = '(' :: (callInner name props ++ [')', ' ']) := by
    have hsource : '(' :: (callInner name props ++ [')', ' ']) ++ ['\x7d', '\x7d'] = b ++ ['\x7d', '\x7d'] := by
      simpa [Mark.source, callTag, TagKind.closes] using hsource
    exact (List.append_cancel_right hsource).symm
  exact hrest.unreserved hb (.outside (by rw [hbody]; exact callInner_unreserved hname h)) n ht

/-! ### A brace in front of a call -/

/-- With a brace in front of it a call is read as the key of a map, and no colon follows. -/
theorem brace_call_not_mapFollows (hname : GoodName name) (h : ∀ p ∈ props, GoodProp p.1 p.2)
    (hw : Coded .expr 0 ('\x7b' :: ((callTag name props).inner ++ rest)) ws mark s) (more : List Token) :
    ¬ MapFollows (ws ++ more) := by
  have hopen : closing? .expr ('\x7b' :: ((callTag name props).inner ++ rest)) = none :=
    closing?_eq_none _ (by decide)
  obtain ⟨ws1, rfl, hrest⟩ := hw.of_word (fun _ => hopen) (.symbol rfl)
  rw [callTag_inner] at hrest
  change Coded .expr (0 + 1) (' ' :: (placeholderFunction.toList ++ _)) ws1 mark s at hrest
  have hkey : keyEnd? .code 0 (' ' :: (placeholderFunction.toList ++
      '(' :: (callInner name props ++ ')' :: ' ' :: '\x7d' :: '\x7d' :: rest))) = some false := by
    have hinner := (callInner_inner hname h).keyEnd? (d := 0) (')' :: ' ' :: '\x7d' :: '\x7d' :: rest)
    rw [keyEnd?_flat _ ⟨rfl, by decide⟩ fun _ => by decide,
      keyEnd?_calm_drop (n := placeholderFunction.toList.length), List.drop_left' rfl]
    · change keyEnd? .code (0 + 1) _ = _
      rw [hinner]
      rfl
    · intro c hc
      rw [List.take_left' rfl] at hc
      exact .inl (placeholderFunction_isNamePart c hc)
  have hnot := hrest.not_keyEnds rfl hkey more
  intro hmap
  rcases hmap _ rfl with hhead | hends
  · obtain ⟨ws2, rfl, -⟩ := Coded.of_name (c := '_') (w := "_lg_component".toList) (by decide) (List.all_iff_forall_prop.1 (by decide))
      (by rintro a r ⟨⟩; decide) (hrest.of_blank rfl)
    cases hhead
  · exact hnot hends

end SecureLayout.Template
