import SecureLayout.Proofs.Template.Slices
import SecureLayout.Proofs.Template.Alike
import SecureLayout.Proofs.Template.Pages

/-!
The scanner as loops over the octets of a source, which take slices at the places they come to. Main statement: these
loops end, are refused no slice, and find the tags of the scanner at the places where their sources stand.
-/

namespace SecureLayout.Template

open Text (byteLength octets slice? find? Turn rounds)

variable {kind : TagKind} {i : Inside} {d : Nat} {b c : Char} {s u v w : List Char}

/-! ### Characters beyond ASCII -/

/-- The state behind a character that is no sign of any kind. -/
def Inside.plain : Inside → Inside
  | string q _ => string q false
  | code => code

/-- A string is told by an ASCII quote. -/
def Inside.IsAscii (i : Inside) : Prop :=
  ∀ q e, i = string q e → q.toNat < 128

theorem isAscii_of_isNamePart (h : Text.isNamePart c = true) : c.toNat < 128 := by
  simp only [Text.isNamePart, Char.isAlphanum, Char.isAlpha, Char.isUpper, Char.isLower, Char.isDigit,
    Bool.or_eq_true, Bool.and_eq_true, decide_eq_true_eq, beq_iff_eq, UInt32.le_iff_toNat_le] at h
  have hc : c.toNat = c.val.toNat := rfl
  rcases h with (((⟨-, h⟩ | ⟨-, h⟩) | ⟨-, h⟩) | rfl)
  · rw [hc]
    exact Nat.lt_of_le_of_lt h (by decide)
  · rw [hc]
    exact Nat.lt_of_le_of_lt h (by decide)
  · rw [hc]
    exact Nat.lt_of_le_of_lt h (by decide)
  · decide

theorem ne_of_foreign (hc : 128 ≤ c.toNat) {a : Char} (ha : a.toNat < 128) : c ≠ a := by
  rintro rfl
  omega

theorem isQuote_of_foreign (hc : 128 ≤ c.toNat) : Inside.isQuote c = false := by
  simp [Inside.isQuote, ne_of_foreign hc (a := '"') (by decide), ne_of_foreign hc (a := '\'') (by decide)]

theorem isAscii_of_isQuote (h : Inside.isQuote c = true) : c.toNat < 128 := by
  by_contra hge
  rw [isQuote_of_foreign (Nat.le_of_not_lt hge)] at h
  cases h

theorem isNamePart_of_foreign (hc : 128 ≤ c.toNat) : Text.isNamePart c = false := by
  cases h : Text.isNamePart c with
  | false => rfl
  | true => exact absurd (isAscii_of_isNamePart h) (Nat.not_lt.2 hc)

theorem bracketDepth_of_foreign (hc : 128 ≤ c.toNat) : bracketDepth d c = d := by
  have hne : ∀ a : Char, a.toNat < 128 → c ≠ a := fun a => ne_of_foreign hc
  unfold bracketDepth
  rw [if_neg (by simp [hne]), if_neg (by simp [hne])]

namespace Inside

theorem IsAscii.next (h : i.IsAscii) (c : Char) : (i.next c).IsAscii := by
  intro q e heq
  cases i with
  | string q' e' =>
    have hq' := h q' e' rfl
    cases e' with
    | true =>
      cases heq
      exact hq'
    | false =>
      rw [Inside.next] at heq
      split_ifs at heq <;> cases heq <;> exact hq'
  | code =>
    rw [Inside.next] at heq
    split_ifs at heq with hquote
    cases heq
    exact isAscii_of_isQuote hquote

theorem IsAscii.plain (h : i.IsAscii) : i.plain.IsAscii := by
  intro q e heq
  cases i with
  | string q' e' =>
    cases heq
    exact h q e' rfl
  | code => cases heq

theorem isAscii_code : code.IsAscii := by
  intro q e h
  cases h

theorem next_of_foreign (h : i.IsAscii) (hc : 128 ≤ c.toNat) : i.next c = i.plain := by
  cases i with
  | string q e =>
    cases e with
    | true => rfl
    | false =>
      rw [Inside.next, if_neg (ne_of_foreign hc (by decide)), if_neg (ne_of_foreign hc (h q false rfl))]
      rfl
  | code =>
    rw [Inside.next, isQuote_of_foreign hc]
    rfl

theorem plain_plain (i : Inside) : i.plain.plain = i.plain := by
  cases i <;> rfl

end Inside

/-! ### Tags in octets -/

theorem body?_foreign_cons (hi : i.IsAscii) (hc : 128 ≤ c.toNat) (s : List Char) :
    body? kind i d (c :: s) = (body? kind i.plain d s).map (prepend [c]) := by
  cases i with
  | string q e =>
    rw [body?, Inside.next_of_foreign hi hc]
    rfl
  | code =>
    have hnone : closing? kind (c :: s) = none :=
      closing?_eq_none s (by simp [fun a => ne_of_foreign hc (a := a)])
    rw [body?_code fun _ => hnone, Inside.next_of_foreign hi hc, bracketDepth_of_foreign hc]

theorem body?_foreign (hi : i.IsAscii) (hw : ∀ c ∈ w, 128 ≤ c.toNat) (s : List Char) :
    body? kind i.plain d (w ++ s) = (body? kind i.plain d s).map (prepend w) := by
  induction w with
  | nil => rw [map_prepend_nil, List.nil_append]
  | cons c w ih =>
    obtain ⟨hc, hw⟩ := List.forall_mem_cons.1 hw
    rw [List.cons_append, body?_foreign_cons hi.plain hc, Inside.plain_plain, ih hw, map_prepend_append,
      List.singleton_append]

theorem ascii_closing (kind : TagKind) (mark : Mark) :
    ∀ c ∈ mark.source ++ [kind.closes, '\x7d'], c.toNat < 128 := by
  cases kind <;> cases mark <;> simp [Mark.source, TagKind.closes]

theorem octets_ascii (hs : ∀ c ∈ s, c.toNat < 128) : octets s = s := by
  induction s with
  | nil => rfl
  | cons c s ih =>
    obtain ⟨hc, hs⟩ := List.forall_mem_cons.1 hs
    rw [Text.octets_cons, Text.octets_of_ascii hc, ih hs, List.singleton_append]

theorem closing?_octets (kind : TagKind) (s : List Char) :
    closing? kind (octets s) = (closing? kind s).map fun x => (x.1, octets x.2) := by
  cases h : closing? kind s with
  | some x =>
    obtain ⟨mark, rest⟩ := x
    have hs : s = (mark.source ++ [kind.closes, '\x7d']) ++ rest := by
      rw [closing?_source h, List.append_assoc]
      rfl
    rw [hs, Text.octets_append, octets_ascii (ascii_closing kind mark), List.append_assoc]
    exact closing?_of_source kind mark (octets rest)
  | none =>
    cases h' : closing? kind (octets s) with
    | none => rfl
    | some x =>
      obtain ⟨mark, rest⟩ := x
      have hs : octets s = (mark.source ++ [kind.closes, '\x7d']) ++ rest := by
        rw [closing?_source h', List.append_assoc]
        rfl
      obtain ⟨v, rfl, -⟩ := Text.octets_eq_ascii_append (ascii_closing kind mark) hs
      rw [List.append_assoc] at h
      have hclosing : closing? kind (mark.source ++ ([kind.closes, '\x7d'] ++ v)) = some (mark, v) :=
        closing?_of_source kind mark v
      exact absurd (h.symm.trans hclosing) (Option.some_ne_none _).symm

/-- A closing delimiter is found among the octets where it is found among the characters. -/
theorem body?_octets (hi : i.IsAscii) (s : List Char) :
    body? kind i d (octets s) = (body? kind i d s).map fun x => (octets x.1, x.2.1, octets x.2.2) := by
  -- Both go on behind the same octets.
  have hprepend : ∀ (c : Char) (o : Option (List Char × Mark × List Char)),
      (o.map fun x => (octets x.1, x.2.1, octets x.2.2)).map (prepend (octets [c])) =
        (o.map (prepend [c])).map fun x => (octets x.1, x.2.1, octets x.2.2) := by
    intro c o
    cases o with
    | none => rfl
    | some x => exact congrArg (fun b => some (b, x.2.1, octets x.2.2)) (Text.octets_append [c] x.1).symm
  induction s generalizing i d with
  | nil => cases i <;> rfl
  | cons c s ih =>
    have hprepend := hprepend c
    by_cases hc : c.toNat < 128
    · rw [Text.octets_of_ascii hc] at hprepend
      rw [Text.octets_cons, Text.octets_of_ascii hc, List.singleton_append]
      cases i with
      | string q e =>
        rw [body?, ih (hi.next c), body?]
        exact hprepend _
      | code =>
        have hclosing := closing?_octets kind (c :: s)
        rw [Text.octets_cons, Text.octets_of_ascii hc, List.singleton_append] at hclosing
        have hopen : (if d = 0 then closing? kind (c :: octets s) else none) =
            (if d = 0 then closing? kind (c :: s) else none).map fun x => (x.1, octets x.2) := by
          split
          · exact hclosing
          · rfl
        rw [body?, body?, hopen]
        cases (if d = 0 then closing? kind (c :: s) else none) with
        | some x => rfl
        | none =>
          dsimp only [Option.map_none]
          rw [ih (hi.next c)]
          exact hprepend _
    · have hc := Nat.le_of_not_lt hc
      obtain ⟨b, w, hbw⟩ := Text.octets_ne_nil c
      have hforeign := Text.foreign_of_mem_octets hc
      rw [hbw] at hprepend hforeign
      obtain ⟨hb, hw⟩ := List.forall_mem_cons.1 hforeign
      rw [Text.octets_cons, hbw, List.cons_append, body?_foreign_cons hi hb, body?_foreign hi hw, ih hi.plain,
        body?_foreign_cons hi hc, map_prepend_append, List.singleton_append]
      exact hprepend _

/-! ### Names in octets -/

namespace Naming

/-- Any string that is being passed is told by an ASCII quote. -/
def IsAscii (n : Naming) : Prop :=
  ∀ i, n = outside i → i.IsAscii

/-- Where a reader of names is behind a character beyond ASCII. -/
def plain : Naming → Inside
  | outside i => i.plain
  | _ => .code

theorem isAscii_start (c : Char) : (start c).IsAscii := by
  intro i h
  unfold start at h
  split_ifs at h
  cases h
  exact Inside.isAscii_code.next c

theorem isAscii_number : number.IsAscii := by
  intro i h
  cases h

theorem isAscii_name (letters : List Char) : (name letters).IsAscii := by
  intro i h
  cases h

theorem start_of_foreign (hc : 128 ≤ c.toNat) : start c = outside .code :=
  start_of_quiet (isNamePart_of_foreign hc) (Inside.next_of_foreign Inside.isAscii_code hc)

end Naming

variable {n : Naming}

theorem reservedName?_foreign_cons (hn : n.IsAscii) (hc : 128 ≤ c.toNat) (s : List Char) :
    reservedName? n (c :: s) =
      match n.reserved? with
      | some name => some name
      | none => reservedName? (.outside n.plain) s := by
  cases n with
  | outside i =>
    cases i with
    | string q e =>
      rw [reservedName?, Inside.next_of_foreign (hn _ rfl) hc]
      rfl
    | code =>
      rw [reservedName?, Naming.start_of_foreign hc]
      rfl
  | number =>
    rw [reservedName?, isNamePart_of_foreign hc, if_neg (by decide), Naming.start_of_foreign hc]
    rfl
  | name letters =>
    rw [reservedName?, isNamePart_of_foreign hc, if_neg (by decide), Naming.start_of_foreign hc]
    rfl

theorem reservedName?_foreign (hi : i.IsAscii) (hw : ∀ c ∈ w, 128 ≤ c.toNat) (s : List Char) :
    reservedName? (.outside i.plain) (w ++ s) = reservedName? (.outside i.plain) s := by
  induction w with
  | nil => rfl
  | cons c w ih =>
    obtain ⟨hc, hw⟩ := List.forall_mem_cons.1 hw
    have hplain : (Naming.outside i.plain).IsAscii := by
      rintro _ ⟨⟩
      exact hi.plain
    rw [List.cons_append, reservedName?_foreign_cons hplain hc]
    change reservedName? (.outside i.plain.plain) (w ++ s) = _
    rw [Inside.plain_plain, ih hw]

/-- A reserved name is found among the octets as it is found among the characters. -/
theorem reservedName?_octets (hn : n.IsAscii) (s : List Char) : reservedName? n (octets s) = reservedName? n s := by
  induction s generalizing n with
  | nil => rfl
  | cons c s ih =>
    by_cases hc : c.toNat < 128
    · rw [Text.octets_cons, Text.octets_of_ascii hc, List.singleton_append]
      have hstart := ih (Naming.isAscii_start c)
      cases n with
      | outside i =>
        cases i with
        | string q e =>
          rw [reservedName?, reservedName?, ih]
          rintro _ ⟨⟩
          exact (hn _ rfl).next c
        | code => exact hstart
      | number =>
        rw [reservedName?, reservedName?]
        split
        · exact ih Naming.isAscii_number
        · exact hstart
      | name letters =>
        rw [reservedName?, reservedName?, hstart]
        split
        · exact ih (Naming.isAscii_name _)
        · rfl
    · have hc := Nat.le_of_not_lt hc
      obtain ⟨b, w, hbw⟩ := Text.octets_ne_nil c
      have hforeign := Text.foreign_of_mem_octets hc
      rw [hbw] at hforeign
      obtain ⟨hb, hw⟩ := List.forall_mem_cons.1 hforeign
      have hi : ∃ i : Inside, i.IsAscii ∧ n.plain = i.plain := by
        cases n with
        | outside i => exact ⟨i, hn i rfl, rfl⟩
        | number => exact ⟨.code, Inside.isAscii_code, rfl⟩
        | name letters => exact ⟨.code, Inside.isAscii_code, rfl⟩
      obtain ⟨i, hi, hplain⟩ := hi
      rw [Text.octets_cons, hbw, List.cons_append, reservedName?_foreign_cons hn hb,
        reservedName?_foreign_cons hn hc, hplain, reservedName?_foreign hi hw, ih]
      rintro _ ⟨⟩
      exact hi.plain

/-! ### The search for a closing delimiter -/

/-- The octets from a place on. Refused behind the end. -/
def octetsFrom? (bytes : List Char) (place : Nat) : Option (List Char) :=
  if place ≤ bytes.length then some (bytes.drop place) else none

/-- Where the search is. -/
structure Seeker where
  place : Nat
  inside : Inside := .code
  depth : Nat := 0

/-- The sign of the closing delimiter that begins with the octet `b` at a place, if one does. -/
def markAt? (kind : TagKind) (bytes : List Char) (place : Nat) (b : Char) : Option (Option Mark) := do
  let here ← octetsFrom? bytes place
  if [kind.closes, '\x7d'].isPrefixOf here then some (some .none)
  else do
    let after ← octetsFrom? bytes (place + 1)
    some (if [kind.closes, '\x7d'].isPrefixOf after then
      if b = '-' then some .minus else if b = '+' then some .plus else none
    else none)

/-- Brackets are passed over to their ends. -/
def endAt? (kind : TagKind) (bytes : List Char) (depth place : Nat) (b : Char) : Option (Option Mark) :=
  if depth = 0 then markAt? kind bytes place b else some none

def closeRound (kind : TagKind) (bytes : List Char) (k : Seeker) : Option (Turn Seeker (Option (Nat × Mark))) :=
  if k.place < bytes.length then do
    let b ← bytes[k.place]?
    match k.inside with
    | .string _ _ => some (.again { k with place := k.place + 1, inside := k.inside.next b })
    | .code =>
      match ← endAt? kind bytes k.depth k.place b with
      | some mark => some (.done (some (k.place, mark)))
      | none => some (.again ⟨k.place + 1, k.inside.next b, bracketDepth k.depth b⟩)
  else some (.done none)

/-- The place of the delimiter that closes a tag whose body begins at a place, with its sign. -/
def findClose (kind : TagKind) (bytes : List Char) (first : Nat) : Option (Option (Nat × Mark)) :=
  rounds (closeRound kind bytes) (bytes.length + 1) { place := first }

variable {bytes r : List Char} {place : Nat}

theorem lt_of_drop_eq_cons (h : bytes.drop place = b :: r) :
    place < bytes.length ∧ bytes[place]? = some b ∧ bytes.drop (place + 1) = r := by
  have hlt : place < bytes.length := by
    by_contra hge
    rw [List.drop_eq_nil_of_le (Nat.le_of_not_lt hge)] at h
    cases h
  refine ⟨hlt, ?_, ?_⟩
  · rw [← List.head?_drop, h]
    rfl
  · rw [← List.drop_drop, h]
    rfl

/-- Behind octets that stand at a place. -/
theorem drop_behind (hle : place ≤ bytes.length) (h : bytes.drop place = w ++ r) :
    bytes.drop (place + w.length) = r ∧ place + w.length ≤ bytes.length := by
  constructor
  · rw [← List.drop_drop, h, List.drop_left]
  · have hlength := congrArg List.length h
    rw [List.length_drop, List.length_append] at hlength
    omega

theorem markAt?_eq (h : bytes.drop place = b :: r) :
    markAt? kind bytes place b = some ((closing? kind (b :: r)).map Prod.fst) := by
  obtain ⟨hlt, -, hafter⟩ := lt_of_drop_eq_cons h
  have hhere : octetsFrom? bytes place = some (b :: r) := by
    rw [octetsFrom?, if_pos (Nat.le_of_lt hlt), h]
  have hnext : octetsFrom? bytes (place + 1) = some r := by
    rw [octetsFrom?, if_pos (Nat.succ_le_of_lt hlt), hafter]
  have hsign : ∀ {c : Char}, c = '-' ∨ c = '+' → ¬ [kind.closes, '\x7d'].isPrefixOf (c :: r) = true := by
    intro c hc h
    obtain ⟨t, ht⟩ := Text.begins_iff.1 h
    obtain ⟨rfl, -⟩ := List.cons.inj ht
    revert hc
    cases kind <;> decide
  unfold markAt?
  rw [hhere, hnext]
  simp only [Option.bind_eq_bind, Option.bind_some]
  cases hc : closing? kind (b :: r) with
  | some x =>
    obtain ⟨mark, rest⟩ := x
    have hs := closing?_source hc
    cases mark with
    | none =>
      rw [if_pos (Text.begins_iff.2 ⟨rest, hs⟩)]
      rfl
    | minus =>
      obtain ⟨rfl, hr⟩ := List.cons.inj hs
      rw [if_neg (hsign (.inl rfl)), if_pos (Text.begins_iff.2 ⟨rest, hr⟩)]
      rfl
    | plus =>
      obtain ⟨rfl, hr⟩ := List.cons.inj hs
      rw [if_neg (hsign (.inr rfl)), if_pos (Text.begins_iff.2 ⟨rest, hr⟩)]
      rfl
  | none =>
    have hnot : ∀ (mark : Mark) (rest : List Char), b :: r ≠ mark.source ++ kind.closes :: '\x7d' :: rest := by
      intro mark rest hs
      rw [hs, closing?_of_source] at hc
      cases hc
    have hhere : ¬ [kind.closes, '\x7d'].isPrefixOf (b :: r) = true := by
      intro h
      obtain ⟨t, ht⟩ := Text.begins_iff.1 h
      exact hnot .none t ht
    rw [if_neg hhere]
    split
    · next h =>
      obtain ⟨t, rfl⟩ := Text.begins_iff.1 h
      split
      · next hb =>
        subst hb
        exact absurd rfl (hnot .minus t)
      · split
        · next hb =>
          subst hb
          exact absurd rfl (hnot .plus t)
        · rfl
    · rfl

/-- What the search has to come to from where it is. -/
def Seeker.Answers (kind : TagKind) (bytes : List Char) (k : Seeker) (a : Option (Nat × Mark)) : Prop :=
  k.place ≤ bytes.length ∧
    a = (body? kind k.inside k.depth (bytes.drop k.place)).map fun x => (k.place + x.1.length, x.2.1)

/-- A body has one octet more than what is left of it behind its first. -/
theorem map_place_prepend (place : Nat) (b : Char) (o : Option (List Char × Mark × List Char)) :
    ((o.map (prepend [b])).map fun x => (place + x.1.length, x.2.1)) = o.map fun x => (place + 1 + x.1.length, x.2.1) := by
  cases o with
  | none => rfl
  | some x =>
    have hlength : place + (x.1.length + 1) = place + 1 + x.1.length := by omega
    exact congrArg (fun n => some (n, x.2.1)) hlength

theorem closeRound_answers (k : Seeker) (a : Option (Nat × Mark)) (h : k.Answers kind bytes a) :
    closeRound kind bytes k = some (.done a) ∨ ∃ k', closeRound kind bytes k = some (.again k') ∧
      k'.Answers kind bytes a ∧ bytes.length - k'.place < bytes.length - k.place := by
  obtain ⟨place, inside, depth⟩ := k
  obtain ⟨hle, rfl⟩ := h
  dsimp only at hle ⊢
  cases hdrop : bytes.drop place with
  | nil =>
    have hend := List.drop_eq_nil_iff.1 hdrop
    refine .inl ?_
    rw [closeRound, if_neg (Nat.not_lt.2 hend)]
    cases inside <;> rfl
  | cons b r =>
    obtain ⟨hlt, hb, hafter⟩ := lt_of_drop_eq_cons hdrop
    cases inside with
    | string q e =>
      refine .inr ⟨⟨place + 1, Inside.next (.string q e) b, depth⟩, ?_, ⟨hlt, ?_⟩, by dsimp only; omega⟩
      · rw [closeRound, if_pos hlt, hb]
        rfl
      · dsimp only
        rw [body?, hafter]
        exact map_place_prepend place b _
    | code =>
      have hfound : endAt? kind bytes depth place b =
          some ((if depth = 0 then closing? kind (b :: r) else none).map Prod.fst) := by
        unfold endAt?
        split
        · exact markAt?_eq hdrop
        · rfl
      rw [body?]
      cases hc : (if depth = 0 then closing? kind (b :: r) else none) with
      | some x =>
        refine .inl ?_
        rw [closeRound, if_pos hlt, hb]
        simp only [Option.bind_eq_bind, Option.bind_some, hfound, hc, Option.map_some]
        rfl
      | none =>
        refine .inr ⟨⟨place + 1, Inside.next .code b, bracketDepth depth b⟩, ?_, ⟨hlt, ?_⟩, by dsimp only; omega⟩
        · rw [closeRound, if_pos hlt, hb]
          simp only [Option.bind_eq_bind, Option.bind_some, hfound, hc, Option.map_none]
        · dsimp only
          rw [hafter]
          exact map_place_prepend place b _

/-- In a source the search ends, and finds what the scanner finds. -/
theorem findClose_eq (kind : TagKind) (u v : List Char) : findClose kind (octets (u ++ v)) (byteLength u) =
    some ((body? kind .code 0 v).map fun x => (byteLength u + byteLength x.1, x.2.1)) := by
  have hle : byteLength u ≤ (octets (u ++ v)).length := by
    rw [Text.length_octets, byteLength_append]
    exact Nat.le_add_right _ _
  refine Text.rounds_eq (fun k => (octets (u ++ v)).length - k.place) closeRound_answers ⟨hle, ?_⟩ (by omega)
  rw [Text.drop_octets, body?_octets Inside.isAscii_code, Option.map_map]
  refine congrArg (fun f => Option.map f (body? kind .code 0 v)) (funext fun x => ?_)
  exact congrArg (fun k => (byteLength u + k, x.2.1)) (Text.length_octets x.1).symm

/-! ### The search for a reserved name -/

structure NameSeeker where
  place : Nat
  inside : Inside := .code

def nameRound (body : List Char) (k : NameSeeker) : Option (Turn NameSeeker (Option (List Char))) :=
  if k.place < (octets body).length then do
    let b ← (octets body)[k.place]?
    match k.inside with
    | .string _ _ => some (.again ⟨k.place + 1, k.inside.next b⟩)
    | .code =>
      let stop := k.place + (((octets body).drop k.place).takeWhile Text.isNamePart).length
      if Inside.isQuote b then some (.again ⟨k.place + 1, .string b false⟩)
      else if Text.isNameStart b then do
        let name ← slice? body k.place stop
        some (if (Text.stripStart reservedBeginning name).isSome then .done (some name) else .again ⟨stop, .code⟩)
      else if b.isDigit then some (.again ⟨stop, .code⟩)
      else some (.again ⟨k.place + 1, .code⟩)
  else some (.done none)

/-- The first reserved name in the body of a tag. -/
def findReserved (body : List Char) : Option (Option (List Char)) :=
  rounds (nameRound body) ((octets body).length + 1) { place := 0 }

theorem reservedName?_passes {letters : List Char} (hw : ∀ a ∈ w, Text.isNamePart a = true) (r : List Char) :
    reservedName? (.name letters) (w ++ r) = reservedName? (.name (w.reverse ++ letters)) r := by
  induction w generalizing letters with
  | nil => rfl
  | cons c w ih =>
    obtain ⟨hc, hw⟩ := List.forall_mem_cons.1 hw
    rw [List.cons_append, reservedName?, if_pos hc, ih hw, List.reverse_cons, List.append_assoc,
      List.singleton_append]

theorem reservedName?_passes_number (hw : ∀ a ∈ w, Text.isNamePart a = true) (r : List Char) :
    reservedName? .number (w ++ r) = reservedName? .number r := by
  induction w with
  | nil => rfl
  | cons c w ih =>
    obtain ⟨hc, hw⟩ := List.forall_mem_cons.1 hw
    rw [List.cons_append, reservedName?, if_pos hc, ih hw]

/-- Behind the letters of a name or number the reader is outside again. -/
theorem reservedName?_ends {m : Naming} (hm : m = .number ∨ ∃ letters, m = .name letters)
    (hr : ∀ c ∈ r.head?, Text.isNamePart c = false) :
    reservedName? m r =
      match m.reserved? with
      | some name => some name
      | none => reservedName? (.outside .code) r := by
  cases r with
  | nil =>
    have hend : reservedName? m [] = m.reserved? := rfl
    rw [hend]
    cases m.reserved? <;> rfl
  | cons c r =>
    have hc : ¬ Text.isNamePart c = true := by
      rw [hr c rfl]
      decide
    rcases hm with rfl | ⟨letters, rfl⟩
    · conv_lhs => rw [reservedName?, if_neg hc]
      rfl
    · conv_lhs => rw [reservedName?, if_neg hc]
      rfl

/-- A name is judged where its letters end. -/
theorem reservedName?_start (hb : Text.isNameStart b = true) (hw : ∀ a ∈ w, Text.isNamePart a = true)
    (hr : ∀ c ∈ r.head?, Text.isNamePart c = false) :
    reservedName? (Naming.start b) (w ++ r) =
      match (if (Text.stripStart reservedBeginning (b :: w)).isSome then some (b :: w) else none) with
      | some name => some name
      | none => reservedName? (.outside .code) r := by
  rw [Naming.start, if_pos hb, reservedName?_passes hw, reservedName?_ends (.inr ⟨_, rfl⟩) hr, Naming.reserved?,
    List.reverse_append, List.reverse_reverse]
  rfl

theorem reservedName?_number_ends (hw : ∀ a ∈ w, Text.isNamePart a = true)
    (hr : ∀ c ∈ r.head?, Text.isNamePart c = false) :
    reservedName? .number (w ++ r) = reservedName? (.outside .code) r := by
  rw [reservedName?_passes_number hw, reservedName?_ends (.inl rfl) hr]
  rfl

/-- Letters among the octets of a text are a slice of it. -/
theorem slice?_ascii (hdrop : (octets s).drop place = (b :: w) ++ r) (hw : ∀ c ∈ b :: w, c.toNat < 128) :
    slice? s place (place + (b :: w).length) = some (b :: w) := by
  obtain ⟨u, v, rfl, hu, hv⟩ := Text.place_of_ascii (hw b List.mem_cons_self) hdrop
  obtain ⟨v, rfl, -⟩ := Text.octets_eq_ascii_append (fun c hc => hw c (List.mem_cons_of_mem _ hc)) hv
  have hlength : byteLength (b :: w) = (b :: w).length := by
    rw [← Text.length_octets, octets_ascii hw]
  exact Text.slice?_eq_some.2 ⟨u, v, rfl, hu, by rw [hu, hlength]⟩

theorem not_name_of_isQuote (h : Inside.isQuote c = true) : Text.isNameStart c = false ∧ c.isDigit = false := by
  rcases Bool.or_eq_true _ _ ▸ h with h | h
  all_goals
    rw [eq_of_beq h]
    decide

/-- The letters that stand behind a letter. -/
theorem letters_split (hb : Text.isNamePart b = true) (r : List Char) :
    ∃ w rest, (b :: r).takeWhile Text.isNamePart = b :: w ∧ r = w ++ rest ∧
      (∀ a ∈ w, Text.isNamePart a = true) ∧ ∀ c ∈ rest.head?, Text.isNamePart c = false := by
  refine ⟨r.takeWhile Text.isNamePart, r.dropWhile Text.isNamePart, List.takeWhile_cons_of_pos hb,
    List.takeWhile_append_dropWhile.symm, fun a => List.mem_takeWhile_imp, fun c hc => ?_⟩
  have hnot := List.head?_dropWhile_not Text.isNamePart r
  rw [Option.mem_def.1 hc] at hnot
  simpa using hnot

def NameSeeker.Answers (body : List Char) (k : NameSeeker) (a : Option (List Char)) : Prop :=
  k.place ≤ (octets body).length ∧ a = reservedName? (.outside k.inside) ((octets body).drop k.place)

theorem nameRound_answers {body : List Char} (k : NameSeeker) (a : Option (List Char)) (h : k.Answers body a) :
    nameRound body k = some (.done a) ∨ ∃ k', nameRound body k = some (.again k') ∧ k'.Answers body a ∧
      (octets body).length - k'.place < (octets body).length - k.place := by
  obtain ⟨place, inside⟩ := k
  obtain ⟨hle, rfl⟩ := h
  dsimp only at hle ⊢
  cases hdrop : (octets body).drop place with
  | nil =>
    have hend := List.drop_eq_nil_iff.1 hdrop
    exact .inl (by rw [nameRound, if_neg (Nat.not_lt.2 hend)]; rfl)
  | cons b r =>
    obtain ⟨hlt, hb, hafter⟩ := lt_of_drop_eq_cons hdrop
    have hless : (octets body).length - (place + 1) < (octets body).length - place := by omega
    cases inside with
    | string q e =>
      refine .inr ⟨⟨place + 1, Inside.next (.string q e) b⟩, ?_, ⟨hlt, ?_⟩, hless⟩
      · rw [nameRound, if_pos hlt, hb]
        rfl
      · dsimp only
        rw [reservedName?, hafter]
    | code =>
      rw [nameRound, if_pos hlt, reservedName?_outside]
      simp only [hb, hdrop, Option.bind_eq_bind, Option.bind_some]
      by_cases hquote : Inside.isQuote b = true
      · obtain ⟨hstart, hdigit⟩ := not_name_of_isQuote hquote
        refine .inr ⟨⟨place + 1, .string b false⟩, by rw [if_pos hquote], ⟨hlt, ?_⟩, hless⟩
        dsimp only
        rw [hafter, Naming.start, hstart, hdigit, Inside.next, if_pos hquote]
        rfl
      by_cases hpart : Text.isNamePart b = true
      · -- The letters that stand here, and what is left behind them.
        obtain ⟨w, rest, htake, rfl, hw, hrest⟩ := letters_split hpart r
        obtain ⟨hbehind, hin⟩ := drop_behind (w := b :: w) hle hdrop
        have hnearer : (octets body).length - (place + (b :: w).length) < (octets body).length - place := by
          rw [List.length_cons]
          omega
        rw [htake, if_neg hquote]
        by_cases hstart : Text.isNameStart b = true
        · have hslice : slice? body place (place + (b :: w).length) = some (b :: w) := by
            refine slice?_ascii (r := rest) hdrop fun c hc => isAscii_of_isNamePart ?_
            rcases List.mem_cons.1 hc with rfl | hc
            · exact hpart
            · exact hw c hc
          rw [if_pos hstart, hslice, reservedName?_start hstart hw hrest]
          dsimp only [Option.bind_some]
          split
          · exact .inl rfl
          · exact .inr ⟨⟨_, .code⟩, rfl, ⟨hin, by dsimp only; rw [hbehind]⟩, hnearer⟩
        · have hdigit : b.isDigit = true := by
            simp only [Text.isNamePart, Text.isNameStart, Char.isAlphanum, Bool.or_eq_true] at hpart hstart
            tauto
          refine .inr ⟨⟨_, .code⟩, by rw [if_neg hstart, if_pos hdigit], ⟨hin, ?_⟩, hnearer⟩
          dsimp only
          rw [hbehind, Naming.start, if_neg hstart, if_pos hdigit, reservedName?_number_ends hw hrest]
      · have hstart : ¬ Text.isNameStart b = true := fun h => hpart (isNamePart_of_isNameStart h)
        have hdigit : ¬ b.isDigit = true := fun h => hpart (isNamePart_of_isDigit h)
        refine .inr ⟨⟨place + 1, .code⟩, by rw [if_neg hquote, if_neg hstart, if_neg hdigit], ⟨hlt, ?_⟩, hless⟩
        dsimp only
        rw [hafter, Naming.start, if_neg hstart, if_neg hdigit, Inside.next, if_neg hquote]

/-- In the body of a tag the search ends, and finds what the scanner finds. -/
theorem findReserved_eq (body : List Char) :
    findReserved body = some (reservedName? (.outside .code) body) := by
  refine Text.rounds_eq (fun k => (octets body).length - k.place) nameRound_answers
    ⟨Nat.zero_le _, ?_⟩ (by omega)
  rw [List.drop_zero]
  refine (reservedName?_octets ?_ body).symm
  rintro _ ⟨⟩
  exact Inside.isAscii_code

end SecureLayout.Template
