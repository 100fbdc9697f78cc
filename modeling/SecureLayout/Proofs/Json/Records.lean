import SecureLayout.Json.Decode
import SecureLayout.Json.Tagged
import SecureLayout.Proofs.Gives
import SecureLayout.Proofs.Json.Rendering

/-!
Records out of trees, and what reading can give. Main statements: a record is read from its own members, and each field
of a record was read from a part of the tree or stands for one that is absent; the content of a decoded message has no
more levels than a text may have.
-/

namespace SecureLayout.Json

variable {α β γ : Type} {h : Header} {a : Slot α} {b : Slot β} {c : Slot γ} {r s t : Raw}
  {x : α} {y : β} {z : γ} {p : α → Prop} {q : β → Prop} {w : γ → Prop}

theorem record1_object (hx : a.read r = .ok x) : record1 h a (.object [(a.name, r)]) = .ok x := by
  simp [record1, record1Members, Slot.once, Slot.close, hx, Bind.bind, Except.bind, pure, Except.pure]

theorem record2_object (hba : b.name ≠ a.name) (hx : a.read r = .ok x) (hy : b.read s = .ok y) :
    record2 h a b (.object [(a.name, r), (b.name, s)]) = .ok (x, y) := by
  simp [record2, record2Members, Slot.once, Slot.close, hx, hy, hba, Bind.bind, Except.bind, pure,
    Except.pure]

theorem record3_object (hba : b.name ≠ a.name) (hca : c.name ≠ a.name) (hcb : c.name ≠ b.name)
    (hx : a.read r = .ok x) (hy : b.read s = .ok y) (hz : c.read t = .ok z) :
    record3 h a b c (.object [(a.name, r), (b.name, s), (c.name, t)]) = .ok (x, y, z) := by
  simp [record3, record3Members, Slot.once, Slot.close, hx, hy, hz, hba, hca, hcb, Bind.bind,
    Except.bind, pure, Except.pure]

/-- The items of a list, the values of an object. -/
def Raw.parts : Raw → List Raw
  | .list rs => rs
  | .object ms => ms.map (·.2)
  | _ => []

theorem Raw.depth_lt_of_mem_parts {r raw : Raw} (h : r ∈ raw.parts) : r.depth < raw.depth := by
  cases raw with
  | list rs => exact depth_lt_of_mem_list h
  | object ms =>
    obtain ⟨m, hm, rfl⟩ := List.mem_map.1 h
    exact depth_lt_of_mem_object hm
  | null => exact absurd h List.not_mem_nil
  | bool b => exact absurd h List.not_mem_nil
  | number n => exact absurd h List.not_mem_nil
  | text s => exact absurd h List.not_mem_nil

theorem Raw.toWord_int {n : Nat} (hn : n < Numeric.twoTo 64) : toWord (.number (.int n)) = .ok n := by
  have hword : (0 ≤ (n : Int) && (n : Int) < (Numeric.twoTo 64 : Nat)) = true := by
    rw [Bool.and_eq_true, decide_eq_true_eq, decide_eq_true_eq]
    exact ⟨by omega, Int.ofNat_lt.2 hn⟩
  simp only [toWord]
  rw [if_pos hword]
  rfl

theorem Raw.gives_toWord (r : Raw) : Gives r.toWord fun n => n < Numeric.twoTo 64 := by
  unfold toWord
  split
  · next n =>
    split
    · next hn =>
      simp only [Bool.and_eq_true, decide_eq_true_eq] at hn
      exact .ok (by omega)
    · exact .error
  · exact .error

namespace Slot

/-- Whatever is read for the field from one of these has the property, and so has what stands for it. -/
structure Reads (a : Slot α) (rs : List Raw) (p : α → Prop) : Prop where
  read : ∀ r ∈ rs, Gives (a.read r) p
  absent : ∀ x ∈ a.absent, p x

variable {rs : List Raw} {o : Option α}

theorem Reads.tail (ha : a.Reads (r :: rs) p) : a.Reads rs p :=
  ⟨fun s hs => ha.read s (List.mem_cons_of_mem _ hs), ha.absent⟩

theorem Reads.close (ha : a.Reads rs p) (ho : ∀ x ∈ o, p x) : Gives (a.close o) p := by
  cases o with
  | some x => exact .ok (ho x rfl)
  | none =>
    simp only [Slot.close]
    cases habsent : a.absent with
    | none => exact .error
    | some x => exact .ok (ha.absent x habsent)

theorem Reads.once (ha : a.Reads (r :: rs) p) : Gives (a.once r o) fun o => ∀ x ∈ o, p x := by
  cases o with
  | some x => exact .error
  | none =>
    apply (ha.read r List.mem_cons_self).bind
    intro x hx
    apply Gives.ok
    rintro _ ⟨⟩
    exact hx

theorem Reads.take (ha : a.Reads rs p) (count done : Nat) :
    Gives (a.take h count done rs) fun z => p z.1 ∧ ∀ s ∈ z.2, s ∈ rs := by
  cases rs with
  | nil =>
    simp only [Slot.take]
    cases habsent : a.absent with
    | none => exact .error
    | some x => exact .ok ⟨ha.absent x habsent, fun s hs => hs⟩
  | cons r rs =>
    apply (ha.read r List.mem_cons_self).bind
    intro x hx
    exact .ok ⟨hx, fun s hs => List.mem_cons_of_mem _ hs⟩

theorem Reads.of_subset {rs' : List Raw} (ha : a.Reads rs p) (h : ∀ s ∈ rs', s ∈ rs) : a.Reads rs' p :=
  ⟨fun s hs => ha.read s (h s hs), ha.absent⟩

theorem reads_toText (name : String) (rs : List Raw) :
    (⟨name, Raw.toText, none⟩ : Slot String).Reads rs fun _ => True :=
  ⟨fun _ _ => ⟨fun _ _ => trivial⟩, fun _ _ => trivial⟩

theorem reads_toWord (name : String) (rs : List Raw) :
    (⟨name, Raw.toWord, none⟩ : Slot Nat).Reads rs fun n => n < Numeric.twoTo 64 :=
  ⟨fun r _ => r.gives_toWord, fun x hx => by cases hx⟩

/-- A free value fits one level under what it is a part of. -/
theorem reads_toAny {raw : Raw} {n : Nat} (hd : raw.depth ≤ n + 1) (name : String) :
    (⟨name, Raw.toAny, none⟩ : Slot Value).Reads raw.parts (Value.Within n) := by
  refine ⟨fun r hr => .ok (Raw.toValue_within ?_), fun x hx => by cases hx⟩
  exact Nat.le_of_lt_succ ((Raw.depth_lt_of_mem_parts hr).trans_le hd)

end Slot

theorem gives_record2Members {ms : List (String × Raw)} (ha : a.Reads (ms.map (·.2)) p)
    (hb : b.Reads (ms.map (·.2)) q) {o : Option α} {u : Option β} (ho : ∀ x ∈ o, p x)
    (hu : ∀ y ∈ u, q y) : Gives (record2Members h a b ms o u) fun z => p z.1 ∧ q z.2 := by
  induction ms generalizing o u with
  | nil =>
    apply (ha.close ho).bind
    intro x hx
    apply (hb.close hu).bind
    exact fun y hy => .ok ⟨hx, hy⟩
  | cons m ms ih =>
    rw [record2Members]
    split
    · apply ha.once.bind
      exact fun o ho => ih ha.tail hb.tail ho hu
    · split
      · apply hb.once.bind
        exact fun u hu => ih ha.tail hb.tail ho hu
      · exact .after fun _ => ih ha.tail hb.tail ho hu

theorem gives_record2 {raw : Raw} (ha : a.Reads raw.parts p) (hb : b.Reads raw.parts q) :
    Gives (record2 h a b raw) fun z => p z.1 ∧ q z.2 := by
  cases raw with
  | list rs =>
    apply (ha.take 2 0).bind
    intro z hz
    apply ((hb.of_subset hz.2).take 2 1).bind
    intro z' hz'
    exact .after fun _ => .ok ⟨hz.1, hz'.1⟩
  | object ms => exact gives_record2Members ha hb (fun x hx => by cases hx) (fun y hy => by cases hy)
  | null => exact .error
  | bool b => exact .error
  | number n => exact .error
  | text s => exact .error

theorem gives_record3Members {ms : List (String × Raw)} (ha : a.Reads (ms.map (·.2)) p)
    (hb : b.Reads (ms.map (·.2)) q) (hc : c.Reads (ms.map (·.2)) w) {o : Option α} {u : Option β}
    {v : Option γ} (ho : ∀ x ∈ o, p x) (hu : ∀ y ∈ u, q y) (hv : ∀ z ∈ v, w z) :
    Gives (record3Members h a b c ms o u v) fun z => p z.1 ∧ q z.2.1 ∧ w z.2.2 := by
  induction ms generalizing o u v with
  | nil =>
    apply (ha.close ho).bind
    intro x hx
    apply (hb.close hu).bind
    intro y hy
    apply (hc.close hv).bind
    exact fun z hz => .ok ⟨hx, hy, hz⟩
  | cons m ms ih =>
    rw [record3Members]
    split
    · apply ha.once.bind
      exact fun o ho => ih ha.tail hb.tail hc.tail ho hu hv
    · split
      · apply hb.once.bind
        exact fun u hu => ih ha.tail hb.tail hc.tail ho hu hv
      · split
        · apply hc.once.bind
          exact fun v hv => ih ha.tail hb.tail hc.tail ho hu hv
        · exact .after fun _ => ih ha.tail hb.tail hc.tail ho hu hv

theorem gives_record3 {raw : Raw} (ha : a.Reads raw.parts p) (hb : b.Reads raw.parts q)
    (hc : c.Reads raw.parts w) :
    Gives (record3 h a b c raw) fun z => p z.1 ∧ q z.2.1 ∧ w z.2.2 := by
  cases raw with
  | list rs =>
    apply (ha.take 3 0).bind
    intro z hz
    apply ((hb.of_subset hz.2).take 3 1).bind
    intro z' hz'
    apply ((hc.of_subset fun s hs => hz.2 s (hz'.2 s hs)).take 3 2).bind
    intro z'' hz''
    exact .after fun _ => .ok ⟨hz.1, hz'.1, hz''.1⟩
  | object ms =>
    exact gives_record3Members ha hb hc (fun x hx => by cases hx) (fun y hy => by cases hy)
      (fun z hz => by cases hz)
  | null => exact .error
  | bool b => exact .error
  | number n => exact .error
  | text s => exact .error

end SecureLayout.Json

/-! ### What a reader yields -/

namespace SecureLayout.Json

open SecureLayout.Numeric

namespace Reader

variable {α β : Type} {r : Reader α} {f : α → Reader β} {p : α → Prop} {q : β → Prop}

/-- Whatever the reader gives, from any cursor, has the property. -/
def Yields (r : Reader α) (p : α → Prop) : Prop :=
  ∀ c, Gives (r c) fun z => p z.1

namespace Yields

theorem pure {a : α} (h : p a) : Yields (Pure.pure a : Reader α) p :=
  fun _ => .ok h

theorem bind (h : Yields r p) (hf : ∀ a, p a → Yields (f a) q) : Yields (r >>= f) q :=
  fun c => (h c).bind fun z hz => hf z.1 hz z.2

theorem after (hf : ∀ a, Yields (f a) q) : Yields (r >>= f) q :=
  fun _ => .after fun z => hf z.1 z.2

theorem faultHere {e : Fault} : Yields (Reader.faultHere e) p :=
  fun _ => .error

theorem faultNext {e : Fault} : Yields (Reader.faultNext e) p :=
  fun _ => .error

theorem mismatchHere {e : Mismatch} : Yields (Reader.mismatchHere e) p :=
  fun _ => .error

end Yields

/-- Scalars have no levels. -/
theorem yields_scalar : Yields scalar fun o => ∀ r ∈ o, Raw.depth r = 0 := by
  have hsome {r : Raw} (h : r.depth = 0) : ∀ s ∈ some r, Raw.depth s = 0 := by
    rintro _ ⟨⟩
    exact h
  refine .after fun o => ?_
  split
  · exact .faultNext
  · exact .after fun _ => .after fun _ => .pure (hsome rfl)
  · exact .after fun _ => .after fun _ => .pure (hsome rfl)
  · exact .after fun _ => .after fun _ => .pure (hsome rfl)
  · exact .after fun _ => .after fun _ => .pure (hsome rfl)
  · exact .after fun _ => .after fun _ => .pure (hsome rfl)
  · exact .pure fun r hr => by cases hr
  · exact .pure fun r hr => by cases hr
  · split
    · exact .after fun _ => .pure (hsome rfl)
    · exact .faultNext

/-- No reader opens more levels than it has room for; the three call each other with less fuel. -/
theorem yields_values (fuel : Nat) :
    (∀ room, Yields (value fuel room) fun r => r.depth ≤ room) ∧
    (∀ room first, Yields (items fuel room first) fun rs => Raw.depthItems rs ≤ room) ∧
    ∀ room first, Yields (members fuel room first) fun ms => Raw.depthMembers ms ≤ room := by
  induction fuel with
  | zero => exact ⟨fun _ => .faultHere, fun _ _ => .faultHere, fun _ _ => .faultHere⟩
  | succ fuel ih =>
    obtain ⟨hvalue, hitems, hmembers⟩ := ih
    refine ⟨fun room => ?_, fun room first => ?_, fun room first => ?_⟩
    · refine yields_scalar.bind fun o ho => ?_
      cases o with
      | some r => exact .pure (le_of_eq_of_le (ho r rfl) (Nat.zero_le room))
      | none =>
        cases room with
        | zero => exact .faultNext
        | succ room =>
          refine .after fun c => ?_
          split
          · refine .after fun _ => (hitems room true).bind fun rs hrs => .after fun _ => .pure ?_
            exact Nat.succ_le_succ hrs
          · refine .after fun _ => (hmembers room true).bind fun ms hms => .after fun _ => .pure ?_
            exact Nat.succ_le_succ hms
    · refine .after fun more => ?_
      split
      · refine (hvalue room).bind fun r hr => (hitems room false).bind fun rs hrs => .pure ?_
        exact max_le hr hrs
      · exact .pure (Nat.zero_le room)
    · refine .after fun more => ?_
      split
      · refine .after fun k => .after fun _ => (hvalue room).bind fun r hr => ?_
        exact (hmembers room false).bind fun ms hms => .pure (max_le hr hms)
      · exact .pure (Nat.zero_le room)

theorem yields_anyValue (room : Nat) : Yields (anyValue room) fun r => r.depth ≤ room :=
  fun c => (yields_values (fuelFor c)).1 room c

theorem yields_taggedMembers (f : Family) (room fuel : Nat) (first : Bool) (tag : Option String) :
    Yields (taggedMembers f room fuel first tag) fun z => Raw.depthMembers z.2 ≤ room := by
  induction fuel generalizing first tag with
  | zero => exact .faultHere
  | succ fuel ih =>
    refine .after fun more => ?_
    split
    · refine .after fun k => ?_
      split
      · split
        · exact .after fun _ => .mismatchHere
        · exact .after fun _ => .after fun t => ih false (some t)
      · refine .after fun _ => (yields_anyValue room).bind fun r hr => ?_
        exact (ih false tag).bind fun z hz => .pure (max_le hr hz)
    · exact .pure (Nat.zero_le room)

/-- The content of a message fits the room of the whole text. -/
theorem yields_tagged (f : Family) : Yields (tagged f) fun z => z.2.depth ≤ greatestDepth := by
  refine .after fun c => ?_
  split
  · refine .after fun _ => .after fun more => ?_
    split
    · refine .after fun tag => .after fun c => ?_
      refine ((yields_values (fuelFor c)).2.1 (greatestDepth - 1) false).bind fun rs hrs => ?_
      exact .after fun _ => .pure (Nat.succ_le_succ hrs)
    · exact .after fun _ => .mismatchHere
  · refine .after fun _ => .after fun c => ?_
    refine (yields_taggedMembers f (greatestDepth - 1) (fuelFor c) true none).bind fun z hz => ?_
    refine .after fun _ => ?_
    split
    · exact .pure (Nat.succ_le_succ hz)
    · exact .mismatchHere
  · refine .after fun o => ?_
    split
    · exact .mismatchHere
    · exact .faultNext

theorem gives_run (h : Yields r p) (s : String) : Gives (run r s) p := by
  have hwhole : Yields (do let a ← r; atEnd; Pure.pure a : Reader α) p :=
    h.bind fun a ha => .after fun _ => .pure ha
  unfold run
  split
  · next z hz => exact .ok ((hwhole _).result _ hz)
  · exact .error

/-- What holds of all contents that are not too deep holds of whatever is decoded. -/
theorem gives_decode {f : Family} {content : String → Raw → Decoded α}
    (h : ∀ kind raw, raw.depth ≤ greatestDepth → Gives (content kind raw) p) (s : String) :
    Gives (decode f content s) p := by
  refine gives_run ((yields_tagged f).bind fun z hz => ?_) s
  obtain ⟨tag, raw⟩ := z
  have hcontent := (h tag raw hz).result
  dsimp only
  split
  · next a ha => exact .pure (hcontent a ha)
  · exact fun _ => .error

end Reader

end SecureLayout.Json
