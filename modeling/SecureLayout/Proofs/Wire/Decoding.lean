import SecureLayout.Proofs.Json.Strictness
import SecureLayout.Proofs.Wire.Texts

/-!
Decoding. Main statements: a message of a sandbox comes back from its text as it was, and so does whatever was decoded
from a text in any other form; a message of the relay comes back as it was but for presence `null`, which comes back
as no presence: on the wire `null` says that a client has left. A message with fields was decoded from an object with
just the names of its fields, each once, and so was every update in it; a message without fields overlooks all
members, and a clock overlooks those that are not its own.
-/

namespace SecureLayout

/-! ### Equality that can be computed -/

namespace Json.Value

variable {v w : Value} {vs ws : List Value} {ms ns : List (String × Value)}

theorem eq_of_beqItems (hvs : ∀ v ∈ vs, ∀ {w : Value}, v.beq w = true → v = w) (h : beqItems vs ws = true) :
    vs = ws := by
  induction vs generalizing ws with
  | nil =>
    cases ws with
    | nil => rfl
    | cons w ws => cases h
  | cons v vs ih =>
    cases ws with
    | nil => cases h
    | cons w ws =>
      obtain ⟨hv, hrest⟩ := List.forall_mem_cons.1 hvs
      obtain ⟨hhead, htail⟩ := Bool.and_eq_true_iff.1 h
      rw [hv hhead, ih hrest htail]

theorem eq_of_beqMembers (hms : ∀ m ∈ ms, ∀ {w : Value}, m.2.beq w = true → m.2 = w) (h : beqMembers ms ns = true) :
    ms = ns := by
  induction ms generalizing ns with
  | nil =>
    cases ns with
    | nil => rfl
    | cons n ns => cases h
  | cons m ms ih =>
    cases ns with
    | nil => cases h
    | cons n ns =>
      obtain ⟨hm, hrest⟩ := List.forall_mem_cons.1 hms
      obtain ⟨hhead, htail⟩ := Bool.and_eq_true_iff.1 h
      obtain ⟨hkey, hvalue⟩ := Bool.and_eq_true_iff.1 hhead
      rw [ih hrest htail, show m = n from Prod.ext (eq_of_beq hkey) (hm hvalue)]

/-- Values that are found equal are the same. -/
theorem eq_of_beq_value (h : v.beq w = true) : v = w := by
  induction v using treeInduction generalizing w with
  | null =>
    cases w with
    | null => rfl
    | _ => cases h
  | bool b =>
    cases w with
    | bool c => rw [eq_of_beq h]
    | _ => cases h
  | number n =>
    cases w with
    | number k => rw [eq_of_beq h]
    | _ => cases h
  | text s =>
    cases w with
    | text t => rw [eq_of_beq h]
    | _ => cases h
  | list vs ih =>
    cases w with
    | list ws => rw [eq_of_beqItems ih h]
    | _ => cases h
  | object ms ih =>
    cases w with
    | object ns => rw [eq_of_beqMembers ih h]
    | _ => cases h

end Json.Value

namespace Wire

open Json (Value)
open Json.Reader (greatestDepth)
open Numeric (twoTo)

namespace FrameMessage

variable {m : FrameMessage}

theorem decode_eq_ok_iff {s : String} : decode s = .ok m ↔ decode? s = .ok m := by
  unfold decode
  cases decode? s <;> simp

/-- Every message of integers that is not too deep is decoded from its own text; and so is every message of
integers that was decoded from any text, whatever the order of its keys, its blanks, its escapes or its form. -/
theorem comes_back (m : FrameMessage) (hi : ∀ v ∈ m.value?, v.Integral) :
    ((∀ v ∈ m.value?, v.Ordered) → m.depth ≤ greatestDepth → decode m.encode = .ok m) ∧
      ∀ s, decode s = .ok m → decode m.encode = .ok m := by
  refine ⟨fun ho hd => ?_, fun s hs => ?_⟩
  · exact decode_eq_ok_iff.2 (decode?_encode ho hi hd)
  · exact decode_eq_ok_iff.2 (decode?_encode_of_decode? (decode_eq_ok_iff.1 hs) hi)

theorem eq_outputChange_of_beq {field : String} {value : Value} (h : (m == outputChange field value) = true) :
    m = outputChange field value := by
  cases m with
  | outputChange field' value' =>
    obtain ⟨hfield, hvalue⟩ := Bool.and_eq_true_iff.1 h
    rw [eq_of_beq hfield, Value.eq_of_beq_value hvalue]
  | _ => cases h

/-- A list in place of an object, an escaped letter and members out of order. -/
theorem comes_back_from_list :
    let m := outputChange "naïve" (.object [("a", .ofInt (-2)), ("b", .null)])
    let s := "[ \"OUTPUT_CHANGE\", \"na\\u00efve\", \x7b\"b\": null, \"a\": -2\x7d ]"
    decode s = .ok m ∧ decode m.encode = .ok m := by
  intro m s
  have hi : ∀ v ∈ m.value?, v.Integral := by
    intro v hv
    cases hv
    refine .object fun e he => ?_
    simp only [Value.toRawMembers, List.mem_cons, List.not_mem_nil, or_false] at he
    rcases he with rfl | rfl
    · exact .number ⟨by decide, by decide⟩
    · exact .null
  have hread : (decode s).toOption.any (· == m) = true := by decide +kernel
  have hs : decode s = .ok m := by
    cases hd : decode s with
    | error e =>
      rw [hd] at hread
      cases hread
    | ok m' =>
      rw [hd] at hread
      exact congrArg Except.ok (eq_outputChange_of_beq hread)
  exact ⟨hs, (comes_back m hi).2 s hs⟩

end FrameMessage

namespace SyncMessage

variable {m : SyncMessage}

theorem decode_eq_ok_iff {s : String} : decode s = .ok m ↔ decode? s = .ok m := by
  unfold decode
  cases decode? s <;> simp

/-- The message as it is decoded: without a presence of `null`. -/
def heard : SyncMessage → SyncMessage
  | awareness doc client state => awareness doc client (state.filter fun v => !v.isNull)
  | m => m

/-- What the fields of a message can hold: numbers are words and members of objects stand in key order. -/
abbrev Typed : SyncMessage → Prop :=
  Carries FieldUpdate.Formed (· < twoTo 64) Value.Ordered

theorem state?_heard (m : SyncMessage) : m.heard.state? = m.state?.filter fun v => !v.isNull := by
  cases m <;> rfl

theorem formed_heard (h : m.Typed) : m.heard.Formed := by
  have hstate : ∀ v ∈ m.heard.state?, v.Ordered ∧ v.isNull = false := by
    intro v hv
    rw [state?_heard, Option.mem_def, Option.filter_eq_some_iff, Bool.not_eq_true'] at hv
    exact ⟨h.state v hv.1, hv.2⟩
  cases m <;> exact ⟨h.updates, h.seq, hstate⟩

theorem integral_heard (h : m.Integral) : m.heard.Integral := by
  have hstate : ∀ v ∈ m.heard.state?, v.Integral := by
    intro v hv
    rw [state?_heard, Option.mem_def, Option.filter_eq_some_iff] at hv
    exact h.state v hv.1
  cases m <;> exact ⟨h.updates, h.seq, hstate⟩

theorem members_heard (m : SyncMessage) : m.heard.members = m.members := by
  cases m with
  | awareness doc client state =>
    cases state with
    | none => rfl
    | some v => cases v <;> rfl
  | _ => rfl

theorem encode_heard (m : SyncMessage) : m.heard.encode = m.encode := by
  have hkind : m.heard.kind = m.kind := by cases m <;> rfl
  rw [encode_eq, encode_eq, members_heard, hkind]

theorem heard_eq_iff : m.heard = m ↔ ∀ v ∈ m.state?, v.isNull = false := by
  cases m with
  | awareness doc client state =>
    cases state with
    | none => simp [heard, state?]
    | some v => cases v <;> simp [heard, state?, Value.isNull]
  | _ => simp [heard, state?]

/-- A text says of presence only what is not `null`. -/
theorem decode_encode_eq (h : m.Typed) (hi : m.Integral) (hd : m.depth ≤ greatestDepth) :
    decode m.encode = .ok m.heard := by
  have hdepth : m.heard.depth = m.depth := by rw [depth, depth, members_heard]
  rw [← encode_heard, decode_eq_ok_iff]
  exact decode?_encode (formed_heard h) (integral_heard hi) (hdepth ▸ hd)

/-- Every message of integers that is not too deep is decoded from its own text but for presence `null`: the
text then says that the client has left. -/
theorem comes_back_but_null (h : m.Typed) (hi : m.Integral) (hd : m.depth ≤ greatestDepth) :
    decode m.encode = .ok m.heard ∧ (m.heard = m ↔ ∀ v ∈ m.state?, v.isNull = false) :=
  ⟨decode_encode_eq h hi hd, heard_eq_iff⟩

theorem comes_back_with_cursor :
    let m := awareness "d" "alice" (some (.object [("cursor", .ofNat 3)]))
    m.Typed ∧ m.Integral ∧ m.depth ≤ greatestDepth ∧ decode m.encode = .ok m := by
  intro m
  have htyped : m.Typed := by
    refine ⟨nofun, nofun, fun v hv => ?_⟩
    cases hv
    exact .object (List.pairwise_singleton _ _) (List.forall_mem_singleton.2 (.number _))
  have hintegral : m.Integral := by
    refine ⟨nofun, nofun, fun v hv => ?_⟩
    cases hv
    exact .object (List.forall_mem_singleton.2 (.number ⟨by decide, by decide⟩))
  have hdepth : m.depth ≤ greatestDepth := by decide
  exact ⟨htyped, hintegral, hdepth, (comes_back_but_null htyped hintegral hdepth).1⟩

/-- Publishing `null` is told as leaving. -/
theorem null_presence_reads_as_leave :
    let m := awareness "d" "alice" (some .null)
    m.Typed ∧ m.Integral ∧ m.depth ≤ greatestDepth ∧ decode m.encode = .ok (awareness "d" "alice" none) ∧
      decode m.encode ≠ .ok m := by
  intro m
  have htyped : m.Typed := ⟨nofun, nofun, fun v hv => by cases hv; exact .null⟩
  have hintegral : m.Integral := ⟨nofun, nofun, fun v hv => by cases hv; exact .null⟩
  have hdepth : m.depth ≤ greatestDepth := by decide
  have hdecode : decode m.encode = .ok (awareness "d" "alice" none) := decode_encode_eq htyped hintegral hdepth
  refine ⟨htyped, hintegral, hdepth, hdecode, fun hm => ?_⟩
  have hsame : awareness "d" "alice" none = m := Except.ok.inj (hdecode.symm.trans hm)
  simp [m] at hsame

end SyncMessage

end Wire

end SecureLayout

namespace SecureLayout.Wire

open Json (Raw names)

/-! ### Frames -/

namespace FrameMessage

theorem kind_ofContent (kind : String) (raw : Raw) : Gives (ofContent kind raw) fun m => m.kind = kind := by
  unfold ofContent
  split
  · exact .after fun _ => .ok rfl
  · exact .after fun _ => .ok rfl
  · exact .after fun _ => .ok rfl
  · exact .after fun _ => .ok rfl
  · exact .after fun _ => .ok rfl
  · exact .after fun _ => .ok rfl
  · exact .error

theorem perm_ofContent (kind : String) (ms : List (String × Raw)) :
    Gives (ofContent kind (.object ms)) fun m => m.fields = [] ∨ (names ms).Perm (m.fields.map (·.1)) := by
  unfold ofContent
  split
  · exact .after fun _ => .ok (.inl rfl)
  · exact (Json.perm_record2 rfl (by decide) rfl rfl).bind fun _ h => .ok (.inr h.1)
  · exact .after fun _ => .ok (.inl rfl)
  · exact (Json.perm_record2 rfl (by decide) rfl rfl).bind fun _ h => .ok (.inr h.1)
  · exact (Json.perm_record2 rfl (by decide) rfl rfl).bind fun _ h => .ok (.inr h.1)
  · exact (Json.perm_record1 rfl rfl).bind fun _ h => .ok (.inr h)
  · exact .error

/-- A message with fields is decoded from an object with just their names beside its kind. -/
theorem decode_names {s : String} {m : FrameMessage} (h : decode? s = .ok m) :
    ∃ raw, Json.Reader.run (Json.Reader.tagged family) s = .ok (m.kind, raw) ∧
      ∀ ms, raw = .object ms → m.fields = [] ∨ (names ms).Perm (m.fields.map (·.1)) := by
  obtain ⟨kind, raw, hrun, hcontent⟩ := Json.Reader.decode_eq_ok_iff.1 h
  obtain rfl := (kind_ofContent kind raw).result m hcontent
  refine ⟨raw, hrun, fun ms hms => ?_⟩
  rw [hms] at hcontent
  exact (perm_ofContent m.kind ms).result m hcontent

/-- A message without fields is decoded from an object with any members whatever beside its kind. -/
theorem decode_overlooks {s : String} {m : FrameMessage} (hm : m.fields = []) {ms : List (String × Raw)}
    (h : Json.Reader.run (Json.Reader.tagged family) s = .ok (m.kind, .object ms)) : decode? s = .ok m := by
  refine Json.Reader.decode_eq_ok_iff.2 ⟨m.kind, _, h, ?_⟩
  cases m with
  | ready => rfl
  | rendered => rfl
  | render html context => cases hm
  | updateContext path value => cases hm
  | outputChange field value => cases hm
  | error text => cases hm

end FrameMessage

/-! ### Updates and their clocks -/

/-- A clock has both its names once, whatever else stands beside them; or it is a list of two. -/
inductive HoldsClock : Raw → Prop
  | object {ms : List (String × Raw)} : (names ms).count "counter" = 1 → (names ms).count "replica" = 1 →
      HoldsClock (.object ms)
  | list (counter replica : Raw) : HoldsClock (.list [counter, replica])

/-- An update has just its names, and a clock among them; or it is a list that ends with one. -/
inductive HoldsUpdate : Raw → Prop
  | object {ms : List (String × Raw)} : (names ms).Perm ["field", "value", "clock"] →
      (∀ r, ("clock", r) ∈ ms → HoldsClock r) → HoldsUpdate (.object ms)
  | list (field value : Raw) {clock : Raw} : HoldsClock clock → HoldsUpdate (.list [field, value, clock])

theorem holdsClock_ofRaw (r : Raw) : Gives (Clock.ofRaw r) fun _ => HoldsClock r := by
  cases r with
  | object ms =>
    apply (Json.fits_record2Members (by decide) _ ms none none).bind
    rintro _ ⟨f, g, -⟩
    exact .ok (.object (f.count rfl) (g.count rfl))
  | list rs =>
    apply (Json.list_record2 rfl rfl).bind
    rintro _ ⟨r, s, rfl⟩
    exact .ok (.list r s)
  | null => exact .error
  | bool b => exact .error
  | number n => exact .error
  | text s => exact .error

/-- A clock overlooks all names but its own. -/
theorem ofRaw_overlooks (ms : List (String × Raw)) :
    Clock.ofRaw (.object (ms.filter fun m => m.1 = "counter" || m.1 = "replica")) = Clock.ofRaw (.object ms) := by
  have hsame : Json.record2 ⟨"struct Clock", false⟩ ⟨"counter", Raw.toWord, none⟩ ⟨"replica", Raw.toText, none⟩
      (.object (ms.filter fun m => m.1 = "counter" || m.1 = "replica")) =
      Json.record2 ⟨"struct Clock", false⟩ ⟨"counter", Raw.toWord, none⟩ ⟨"replica", Raw.toText, none⟩ (.object ms) :=
    Json.record2Members_filter rfl ms none none
  unfold Clock.ofRaw
  rw [hsame]

theorem holdsUpdate_ofRaw (r : Raw) : Gives (FieldUpdate.ofRaw r) fun _ => HoldsUpdate r := by
  have hclock : ∀ s, (∃ c, Clock.ofRaw s = .ok c) → HoldsClock s :=
    fun s ⟨c, hc⟩ => (holdsClock_ofRaw s).result c hc
  cases r with
  | object ms =>
    apply (Json.perm_record3 rfl (by decide) (by decide) (by decide) rfl rfl).bind
    rintro _ ⟨hperm | ⟨hsome, -⟩, hread⟩
    · exact .ok (.object hperm fun s hs => hclock s (hread s hs))
    · cases hsome
  | list rs =>
    apply (Json.list_record3 rfl rfl rfl).bind
    rintro _ ⟨r, s, t, rfl, hread⟩
    exact .ok (.list r s (hclock t hread))
  | null => exact .error
  | bool b => exact .error
  | number n => exact .error
  | text s => exact .error

theorem holdsUpdates_ofRaw (r : Raw) :
    Gives (Raw.toListOf FieldUpdate.ofRaw r) fun _ => ∃ rs, r = .list rs ∧ ∀ s ∈ rs, HoldsUpdate s := by
  cases r with
  | list rs =>
    refine (Gives.mapM_all (g := FieldUpdate.ofRaw) rs).imp fun _ hall => ⟨rs, rfl, fun s hs => ?_⟩
    obtain ⟨u, hu⟩ := hall s hs
    exact (holdsUpdate_ofRaw s).result u hu
  | null => exact .error
  | bool b => exact .error
  | number n => exact .error
  | text s => exact .error
  | object ms => exact .error

/-! ### Messages of the relay -/

namespace SyncMessage

theorem kind_ofContent (kind : String) (raw : Raw) : Gives (ofContent kind raw) fun m => m.kind = kind := by
  unfold ofContent
  split
  · exact .after fun _ => .ok rfl
  · exact .after fun _ => .ok rfl
  · exact .after fun _ => .ok rfl
  · exact .after fun _ => .ok rfl
  · exact .after fun _ => .ok rfl
  · exact .after fun _ => .ok rfl
  · exact .error

/-- An object has just the names of a message, and its updates are updates by their names too. Presence that has
ended needs no name of its own. -/
structure Spells (ms : List (String × Raw)) (m : SyncMessage) : Prop where
  own : (names ms).Perm (m.fields.map (·.1)) ∨
    (∃ doc client, m = .awareness doc client none) ∧ (names ms).Perm ["doc", "client"]
  update : ∀ doc seq u, m = .update doc seq u → ∀ r, ("update", r) ∈ ms → HoldsUpdate r
  updates : ∀ doc us, m = .syncState doc us → ∀ r, ("updates", r) ∈ ms → ∃ rs, r = .list rs ∧ ∀ s ∈ rs, HoldsUpdate s

theorem spells_ofContent (kind : String) (ms : List (String × Raw)) :
    Gives (ofContent kind (.object ms)) (Spells ms) := by
  unfold ofContent
  split
  · exact (Json.perm_record2 rfl (by decide) rfl rfl).bind fun _ h => .ok ⟨.inl h.1, nofun, nofun⟩
  · apply (Json.perm_record2 rfl (by decide) rfl rfl).bind
    exact fun _ h => .ok ⟨.inl h.1, nofun, fun _ _ _ r hr =>
      have ⟨us, hus⟩ := h.2 r hr
      (holdsUpdates_ofRaw r).result us hus⟩
  · apply (Json.perm_record3 rfl (by decide) (by decide) (by decide) rfl rfl).bind
    rintro _ ⟨hperm | ⟨hsome, -⟩, hread⟩
    · exact .ok ⟨.inl hperm, fun _ _ _ _ r hr =>
        have ⟨u, hu⟩ := hread r hr
        (holdsUpdate_ofRaw r).result u hu, nofun⟩
    · cases hsome
  · exact (Json.perm_record2 rfl (by decide) rfl rfl).bind fun _ h => .ok ⟨.inl h.1, nofun, nofun⟩
  · apply (Json.perm_record3 rfl (by decide) (by decide) (by decide) rfl rfl).bind
    rintro ⟨doc, client, state⟩ ⟨hperm | ⟨habsent, hperm⟩, -⟩
    · exact .ok ⟨.inl hperm, nofun, nofun⟩
    · cases habsent
      exact .ok ⟨.inr ⟨⟨doc, client, rfl⟩, hperm⟩, nofun, nofun⟩
  · exact (Json.perm_record2 rfl (by decide) rfl rfl).bind fun _ h => .ok ⟨.inl h.1, nofun, nofun⟩
  · exact .error

/-- A message is decoded from an object with just the names of its fields beside its kind, down to its updates;
only clocks may say more. -/
theorem decode_names {s : String} {m : SyncMessage} (h : decode? s = .ok m) :
    ∃ raw, Json.Reader.run (Json.Reader.tagged family) s = .ok (m.kind, raw) ∧
      ∀ ms, raw = .object ms → Spells ms m := by
  obtain ⟨kind, raw, hrun, hcontent⟩ := Json.Reader.decode_eq_ok_iff.1 h
  obtain rfl := (kind_ofContent kind raw).result m hcontent
  refine ⟨raw, hrun, fun ms hms => ?_⟩
  rw [hms] at hcontent
  exact (spells_ofContent m.kind ms).result m hcontent

end SyncMessage

end SecureLayout.Wire
