import SecureLayout.Proofs.Json.Records
import SecureLayout.Proofs.Json.Rereading

/-!
Texts that are too deep. More room changes nothing about what is read with less, so with too little room nothing
else can be read than what enough room gives, and that is too deep. Main statement: the text of a message with
more levels than there is room for is refused.
-/

namespace SecureLayout.Json.Reader

variable {α β : Type} {r r' : Reader α} {f f' : α → Reader β} {s t rest : List Char} {a : α}

/-- What the first reader gives, the second gives. -/
def Refines (r r' : Reader α) : Prop :=
  ∀ c z, r c = .ok z → r' c = .ok z

namespace Refines

theorem refl (r : Reader α) : Refines r r :=
  fun _ _ h => h

theorem bind (hr : Refines r r') (hf : ∀ a, Refines (f a) (f' a)) : Refines (r >>= f) (r' >>= f') := by
  intro c z h
  simp only [Bind.bind, StateT.bind] at h ⊢
  cases hy : r c with
  | error e =>
    rw [hy] at h
    cases h
  | ok y =>
    rw [hy] at h
    rw [hr c y hy]
    exact hf y.1 y.2 z h

theorem after (hf : ∀ a, Refines (f a) (f' a)) : Refines (r >>= f) (r >>= f') :=
  (refl r).bind hf

theorem faultNext {e : Fault} : Refines (Reader.faultNext e) r := by
  rintro c z ⟨⟩

end Refines

theorem refines_values (fuel : Nat) :
    (∀ room more, room ≤ more → Refines (value fuel room) (value fuel more)) ∧
    (∀ room more first, room ≤ more → Refines (items fuel room first) (items fuel more first)) ∧
    ∀ room more first, room ≤ more → Refines (members fuel room first) (members fuel more first) := by
  induction fuel with
  | zero => exact ⟨fun _ _ _ => .refl _, fun _ _ _ _ => .refl _, fun _ _ _ _ => .refl _⟩
  | succ fuel ih =>
    obtain ⟨hvalue, hitems, hmembers⟩ := ih
    refine ⟨fun room more h => ?_, fun room more first h => ?_, fun room more first h => ?_⟩
    · refine .after fun o => ?_
      cases o with
      | some r => exact .refl _
      | none =>
        cases room with
        | zero => exact .faultNext
        | succ room =>
          cases more with
          | zero => exact absurd h (Nat.not_succ_le_zero room)
          | succ more =>
            have hroom := Nat.le_of_succ_le_succ h
            refine .after fun c => ?_
            split
            · exact .after fun _ => (hitems room more true hroom).bind fun _ => .refl _
            · exact .after fun _ => (hmembers room more true hroom).bind fun _ => .refl _
    · refine .after fun b => ?_
      split
      · exact (hvalue room more h).bind fun _ => (hitems room more false h).bind fun _ => .refl _
      · exact .refl _
    · refine .after fun b => ?_
      split
      · refine .after fun k => .after fun _ => (hvalue room more h).bind fun _ => ?_
        exact (hmembers room more false h).bind fun _ => .refl _
      · exact .refl _

theorem refines_anyValue {room more : Nat} (h : room ≤ more) : Refines (anyValue room) (anyValue more) :=
  fun c => (refines_values (fuelFor c)).1 room more h c

theorem refines_taggedMembers (f : Family) {room more : Nat} (h : room ≤ more) (fuel : Nat) (first : Bool)
    (tag : Option String) :
    Refines (taggedMembers f room fuel first tag) (taggedMembers f more fuel first tag) := by
  induction fuel generalizing first tag with
  | zero => exact .refl _
  | succ fuel ih =>
    refine .after fun b => ?_
    split
    · refine .after fun k => ?_
      split
      · split
        · exact .refl _
        · exact .after fun _ => .after fun t => ih false (some t)
      · exact .after fun _ => (refines_anyValue h).bind fun _ => (ih false tag).bind fun _ => .refl _
    · exact .refl _

/-- In front of `rest`, wherever that is, the reader refuses `s`. -/
def Refuses (r : Reader α) (s rest : List Char) : Prop :=
  ∀ p, ∃ e, r ⟨s ++ rest, p⟩ = .error e

theorem Refuses.bind (hr : Refuses r s rest) : Refuses (r >>= f) s rest := by
  intro p
  obtain ⟨e, he⟩ := hr p
  exact ⟨e, by simp only [Bind.bind, StateT.bind, he, Except.bind]⟩

theorem Takes.refuses (hr : Takes r s (t ++ rest) a) (hf : Refuses (f a) t rest) :
    Refuses (r >>= f) (s ++ t) rest := by
  intro p
  obtain ⟨q, hq⟩ := hr p
  obtain ⟨e, he⟩ := hf q
  refine ⟨e, ?_⟩
  rw [List.append_assoc]
  simp only [Bind.bind, StateT.bind, hq, Except.bind]
  exact he

theorem Refuses.next {f : Option Char → Reader β} (hs : ∀ c ∈ (s ++ rest).head?, isSpace c = false)
    (hf : Refuses (f (s ++ rest).head?) s rest) : Refuses (Reader.next >>= f) s rest := by
  rw [← List.nil_append s]
  exact (takes_next hs).refuses hf

theorem Refuses.skip {f : Unit → Reader β} {c : Char} (hf : Refuses (f ()) s rest) :
    Refuses (Reader.skip >>= f) (c :: s) rest :=
  (takes_skip c (s ++ rest)).refuses hf

theorem Refuses.get {f : Cursor → Reader β} (hf : ∀ p, Refuses (f ⟨s ++ rest, p⟩) s rest) :
    Refuses (MonadState.get >>= f) s rest :=
  fun p => hf p p

theorem Refuses.append (hr : Refuses r s (t ++ rest)) : Refuses r (s ++ t) rest := by
  intro p
  rw [List.append_assoc]
  exact hr p

/-- A reader that could only give what it must not give refuses. -/
theorem refuses_of_takes {p : α → Prop} (hr : Refines r r') (hy : Yields r p) (ht : Takes r' s rest a)
    (ha : ¬ p a) : Refuses r s rest := by
  intro q
  obtain ⟨q', hq'⟩ := ht q
  cases hz : r ⟨s ++ rest, q⟩ with
  | error e => exact ⟨e, rfl⟩
  | ok z =>
    have hsame := hr _ _ hz
    rw [hq'] at hsame
    cases hsame
    exact absurd ((hy _).result _ hz) ha

theorem refuses_tagged {f : Family} {k : String} {ms : List (String × Raw)} (hk : k ∈ f.kinds)
    (hi : ∀ m ∈ ms, m.2.Integral) (hname : ∀ m ∈ ms, m.1 ≠ "type")
    (hdepth : greatestDepth < (Raw.object ms).depth) (rest : List Char) :
    Refuses (tagged f) (Raw.object (("type", .text k) :: ms)).render rest := by
  have hdeep : greatestDepth ≤ Raw.depthMembers ms := Nat.le_of_lt_succ hdepth
  have hshallow : ¬ Raw.depthMembers ms ≤ greatestDepth - 1 :=
    Nat.not_le.2 (Nat.lt_of_lt_of_le (by decide) hdeep)
  rw [Raw.render]
  refine Refuses.next (fun c hc => by cases hc; rfl) (Refuses.skip (Refuses.get fun p => ?_))
  refine Refuses.append (Refuses.bind ?_)
  have hmore : greatestDepth - 1 ≤ Raw.depthMembers ms := (Nat.sub_le _ _).trans hdeep
  exact refuses_of_takes (refines_taggedMembers f hmore _ true none) (yields_taggedMembers f _ _ true none)
    (takes_kindFirst hk hi hname (fuelFor_members _ rest p) (Nat.le_refl _) rest) hshallow

theorem run_of_refuses (w : String) (h : Refuses r w.toList []) : ∃ e, run r w = .error e := by
  have hall : Refuses (do let a ← r; atEnd; pure a : Reader α) w.toList [] := h.bind
  obtain ⟨e, he⟩ := hall .start
  rw [List.append_nil] at he
  exact ⟨e, by rw [run, Cursor.start, he]⟩

/-- A message whose text is too deep is not decoded. -/
theorem decode_render_of_deep {f : Family} {content : String → Raw → Decoded α} {k : String}
    {ms : List (String × Raw)} (hk : k ∈ f.kinds) (hi : ∀ m ∈ ms, m.2.Integral)
    (hname : ∀ m ∈ ms, m.1 ≠ "type") (hdepth : greatestDepth < (Raw.object ms).depth) :
    ∃ e, decode f content (String.ofList (Raw.object (("type", .text k) :: ms)).render) = .error e := by
  refine run_of_refuses _ (Refuses.bind ?_)
  rw [String.toList_ofList]
  exact refuses_tagged hk hi hname hdepth []

end SecureLayout.Json.Reader
