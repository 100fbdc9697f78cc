import SecureLayout.Proofs.Json.Refusal
import SecureLayout.Wire.Frame
import SecureLayout.Wire.Sync

/-!
Messages of a sandbox and of the relay as texts. Main statements: a message whose values hold integers in key order,
and whose numbers are words, is decoded from its own text if that has no more levels than there is room for, and with
one level more it is not decoded; what is decoded from any text is such a message but for the numbers in its values;
and a stored value takes one level more in a `sync_state` than in the update it came with.
-/

namespace SecureLayout.Wire

open Json (Value Raw)
open Json.Reader (greatestDepth)
open Numeric (twoTo)

/-! ### Messages of a sandbox -/

namespace FrameMessage

/-- The members after the kind. -/
def members : FrameMessage → List (String × Raw)
  | ready => []
  | render html context => [("html", .text html), ("context", context.toRaw)]
  | rendered => []
  | updateContext path value => [("path", .text path), ("value", value.toRaw)]
  | outputChange field value => [("field", .text field), ("value", value.toRaw)]
  | error text => [("error", .text text)]

/-- The free value inside. -/
def value? : FrameMessage → Option Value
  | render _ context => some context
  | updateContext _ value => some value
  | outputChange _ value => some value
  | _ => none

/-- Levels of lists and objects in the text. -/
def depth (m : FrameMessage) : Nat :=
  (Raw.object m.members).depth

variable {m : FrameMessage}

theorem encode_eq (m : FrameMessage) :
    m.encode = String.ofList (Raw.object (("type", .text m.kind) :: m.members)).render := by
  have hfields : m.fields = m.members.map fun e => (e.1, e.2.render) := by
    cases m <;> simp [fields, members, Raw.render, Value.render_toRaw]
  rw [encode, hfields, ← Raw.renderRecord_eq]
  rfl

theorem kind_mem (m : FrameMessage) : m.kind ∈ family.kinds := by
  cases m <;> simp [kind, family]

theorem members_ne_type (m : FrameMessage) : ∀ e ∈ m.members, e.1 ≠ "type" := by
  cases m <;> simp [members]

theorem members_integral (h : ∀ v ∈ m.value?, v.Integral) : ∀ e ∈ m.members, e.2.Integral := by
  cases m <;> simp_all [members, value?, Value.Integral, Raw.Integral.text]

theorem depth_le_iff {n : Nat} : m.depth ≤ n + 1 ↔ ∀ v ∈ m.value?, v.depth ≤ n := by
  unfold depth
  rw [Raw.depth, Nat.succ_le_succ_iff, Raw.depthMembers_le_iff]
  cases m <;> simp [members, value?, Raw.depth, Value.depth_toRaw]

theorem ofContent_members (h : ∀ v ∈ m.value?, v.Ordered) :
    ofContent m.kind (.object m.members) = .ok m := by
  have hany {v : Value} (hv : v.Ordered) : Raw.toAny v.toRaw = .ok v :=
    congrArg Except.ok (Value.toValue_toRaw hv)
  cases m with
  | ready => rfl
  | rendered => rfl
  | error s =>
    have hrecord : Json.record1 (header "Error") (text "error") (.object (error s).members) = .ok s :=
      Json.record1_object rfl
    simp [ofContent, kind, hrecord]
  | render html context =>
    have hrecord : Json.record2 (header "Render") (text "html") (any "context")
        (.object (render html context).members) = .ok (html, context) :=
      Json.record2_object (by decide) rfl (hany (h context rfl))
    simp [ofContent, kind, hrecord]
  | updateContext path value =>
    have hrecord : Json.record2 (header "UpdateContext") (text "path") (any "value")
        (.object (updateContext path value).members) = .ok (path, value) :=
      Json.record2_object (by decide) rfl (hany (h value rfl))
    simp [ofContent, kind, hrecord]
  | outputChange field value =>
    have hrecord : Json.record2 (header "OutputChange") (text "field") (any "value")
        (.object (outputChange field value).members) = .ok (field, value) :=
      Json.record2_object (by decide) rfl (hany (h value rfl))
    simp [ofContent, kind, hrecord]

/-- A message is decoded from its text. -/
theorem decode?_encode (ho : ∀ v ∈ m.value?, v.Ordered) (hi : ∀ v ∈ m.value?, v.Integral)
    (hd : m.depth ≤ greatestDepth) : decode? m.encode = .ok m := by
  rw [encode_eq, decode?]
  exact Json.Reader.decode_render m.kind_mem (members_integral hi) m.members_ne_type hd
    (ofContent_members ho)

/-- A message that is too deep is not decoded. -/
theorem decode?_encode_of_deep (hi : ∀ v ∈ m.value?, v.Integral) (hd : greatestDepth < m.depth) :
    ∃ e, decode? m.encode = .error e := by
  rw [encode_eq]
  exact Json.Reader.decode_render_of_deep m.kind_mem (members_integral hi) m.members_ne_type hd

theorem gives_ofContent {kind : String} {raw : Raw} (h : raw.depth ≤ greatestDepth) :
    Gives (ofContent kind raw) fun m => ∀ v ∈ m.value?, v.Within (greatestDepth - 1) := by
  have hpair (name value : String) (title : String) :=
    Json.gives_record2 (h := header title) (Json.Slot.reads_toText name raw.parts)
      (Json.Slot.reads_toAny h value)
  unfold ofContent
  split
  · exact .after fun _ => .ok fun v hv => by cases hv
  · exact (hpair _ _ _).bind fun z hz => .ok fun v hv => by cases hv; exact hz.2
  · exact .after fun _ => .ok fun v hv => by cases hv
  · exact (hpair _ _ _).bind fun z hz => .ok fun v hv => by cases hv; exact hz.2
  · exact (hpair _ _ _).bind fun z hz => .ok fun v hv => by cases hv; exact hz.2
  · exact .after fun _ => .ok fun v hv => by cases hv
  · exact .error

/-- What is decoded from any text is in key order and not too deep. -/
theorem within_of_decode? {s : String} (h : decode? s = .ok m) :
    ∀ v ∈ m.value?, v.Within (greatestDepth - 1) :=
  (Json.Reader.gives_decode (fun _ _ => gives_ofContent) s).result m h

/-- A message of integers, once decoded from any text, is decoded from its own. -/
theorem decode?_encode_of_decode? {s : String} (h : decode? s = .ok m) (hi : ∀ v ∈ m.value?, v.Integral) :
    decode? m.encode = .ok m := by
  have hwithin := within_of_decode? h
  refine decode?_encode (fun v hv => (hwithin v hv).ordered) hi ?_
  exact depth_le_iff.2 fun v hv => (hwithin v hv).depth_le

/-- The message is read back from its own text. -/
def Readable (m : FrameMessage) : Prop :=
  decode m.encode = .ok m

theorem readable_iff_decode? : m.Readable ↔ decode? m.encode = .ok m := by
  unfold Readable decode
  cases decode? m.encode <;> simp

/-- The message is one level around its value. -/
theorem readable_iff (ho : ∀ v ∈ m.value?, v.Ordered) (hi : ∀ v ∈ m.value?, v.Integral) :
    m.Readable ↔ ∀ v ∈ m.value?, v.depth ≤ greatestDepth - 1 := by
  rw [readable_iff_decode?, ← depth_le_iff]
  constructor
  · intro h
    by_contra hd
    obtain ⟨e, he⟩ := decode?_encode_of_deep hi (Nat.lt_of_not_le hd)
    rw [h] at he
    cases he
  · exact decode?_encode ho hi

end FrameMessage

/-! ### Messages of the relay -/

namespace Clock

/-- The clock as it is written. -/
def toRaw (c : Clock) : Raw :=
  .object [("counter", .number (.int c.counter)), ("replica", .text c.replica)]

theorem render_eq (c : Clock) : c.render = c.toRaw.render :=
  Raw.renderRecord_eq [("counter", .number (.int c.counter)), ("replica", .text c.replica)]

theorem ofRaw_toRaw {c : Clock} (h : c.counter < twoTo 64) : ofRaw c.toRaw = .ok c := by
  have hrecord : Json.record2 ⟨"struct Clock", false⟩ ⟨"counter", Raw.toWord, none⟩
      ⟨"replica", Raw.toText, none⟩ c.toRaw = .ok (c.counter, c.replica) :=
    Json.record2_object (by decide) (by dsimp only; exact Raw.toWord_int h) rfl
  rw [ofRaw, hrecord]
  rfl

theorem toRaw_integral {c : Clock} (h : c.counter < twoTo 64) : c.toRaw.Integral := by
  refine .object fun m hm => ?_
  simp only [List.mem_cons, List.not_mem_nil, or_false] at hm
  rcases hm with rfl | rfl
  · exact .number ⟨by omega, by exact_mod_cast h⟩
  · exact .text c.replica

theorem gives_ofRaw (r : Raw) : Gives (ofRaw r) fun c => c.counter < twoTo 64 := by
  refine (Json.gives_record2 (Json.Slot.reads_toWord "counter" r.parts)
    (Json.Slot.reads_toText "replica" r.parts)).bind fun z hz => ?_
  exact .ok hz.1

end Clock

namespace FieldUpdate

/-- The update as it is written. -/
def toRaw (u : FieldUpdate) : Raw :=
  .object [("field", .text u.field), ("value", u.value.toRaw), ("clock", u.clock.toRaw)]

/-- The value is in key order and the counter a word. -/
structure Formed (u : FieldUpdate) : Prop where
  ordered : u.value.Ordered
  counter : u.clock.counter < twoTo 64

variable {u : FieldUpdate} {n : Nat}

theorem render_eq (u : FieldUpdate) : u.render = u.toRaw.render := by
  rw [render, u.clock.render_eq, ← u.value.render_toRaw]
  exact Raw.renderRecord_eq [("field", .text u.field), ("value", u.value.toRaw), ("clock", u.clock.toRaw)]

theorem ofRaw_toRaw (h : u.Formed) : ofRaw u.toRaw = .ok u := by
  have hany : Raw.toAny u.value.toRaw = .ok u.value :=
    congrArg Except.ok (Value.toValue_toRaw h.ordered)
  have hrecord : Json.record3 ⟨"struct FieldUpdate", true⟩ ⟨"field", Raw.toText, none⟩
      ⟨"value", Raw.toAny, none⟩ ⟨"clock", Clock.ofRaw, none⟩ u.toRaw =
      .ok (u.field, u.value, u.clock) :=
    Json.record3_object (by decide) (by decide) (by decide) rfl hany (Clock.ofRaw_toRaw h.counter)
  rw [ofRaw, hrecord]
  rfl

theorem toRaw_integral (h : u.Formed) (hi : u.value.Integral) : u.toRaw.Integral := by
  refine .object fun m hm => ?_
  simp only [List.mem_cons, List.not_mem_nil, or_false] at hm
  rcases hm with rfl | rfl | rfl
  · exact .text u.field
  · exact hi
  · exact Clock.toRaw_integral h.counter

/-- The clock takes one level, the value as many as it has. -/
theorem depth_toRaw_le_iff (hn : 1 ≤ n) : u.toRaw.depth ≤ n + 1 ↔ u.value.depth ≤ n := by
  rw [toRaw, Raw.depth, Nat.succ_le_succ_iff, Raw.depthMembers_le_iff]
  simp [Value.depth_toRaw, Clock.toRaw, Raw.depth, Raw.depthMembers, hn]

theorem gives_ofRaw {r : Raw} (h : r.depth ≤ n + 1) :
    Gives (ofRaw r) fun u => u.Formed ∧ u.value.depth ≤ n := by
  have hclock : Json.Slot.Reads ⟨"clock", Clock.ofRaw, none⟩ r.parts fun c => c.counter < twoTo 64 :=
    ⟨fun s _ => Clock.gives_ofRaw s, fun x hx => by cases hx⟩
  refine (Json.gives_record3 (Json.Slot.reads_toText "field" r.parts)
    (Json.Slot.reads_toAny h "value") hclock).bind fun z hz => ?_
  exact .ok ⟨⟨hz.2.1.ordered, hz.2.2⟩, hz.2.1.depth_le⟩

end FieldUpdate

namespace SyncMessage

/-- The members after the kind. -/
def members : SyncMessage → List (String × Raw)
  | hello doc client => [("doc", .text doc), ("client", .text client)]
  | syncState doc updates =>
    [("doc", .text doc), ("updates", .list (updates.map FieldUpdate.toRaw))]
  | update doc seq u => [("doc", .text doc), ("seq", .number (.int seq)), ("update", u.toRaw)]
  | ack doc seq => [("doc", .text doc), ("seq", .number (.int seq))]
  | awareness doc client state =>
    [("doc", .text doc), ("client", .text client), ("state", (state.getD .null).toRaw)]
  | error code msg => [("code", .text code), ("msg", .text msg)]

/-- The updates inside. -/
def updates : SyncMessage → List FieldUpdate
  | syncState _ us => us
  | update _ _ u => [u]
  | _ => []

/-- The number of the write. -/
def seq? : SyncMessage → Option Nat
  | update _ seq _ => some seq
  | ack _ seq => some seq
  | _ => none

/-- The presence inside. -/
def state? : SyncMessage → Option Value
  | awareness _ _ state => state
  | _ => none

/-- What the updates, the number and the presence in a message are like. -/
structure Carries (W : FieldUpdate → Prop) (S : Nat → Prop) (P : Value → Prop) (m : SyncMessage) : Prop where
  updates : ∀ u ∈ m.updates, W u
  seq : ∀ n ∈ m.seq?, S n
  state : ∀ v ∈ m.state?, P v

/-- What a message must be like to be told apart from others by its text: `null` is no presence. -/
abbrev Formed : SyncMessage → Prop :=
  Carries FieldUpdate.Formed (· < twoTo 64) fun v => v.Ordered ∧ v.isNull = false

/-- Numbers in free values are 64-bit integers. -/
abbrev Integral : SyncMessage → Prop :=
  Carries (·.value.Integral) (fun _ => True) Value.Integral

/-- Levels of lists and objects in the text. -/
def depth (m : SyncMessage) : Nat :=
  (Raw.object m.members).depth

variable {m : SyncMessage} {n : Nat}

theorem encode_eq (m : SyncMessage) :
    m.encode = String.ofList (Raw.object (("type", .text m.kind) :: m.members)).render := by
  have hlist (us : List FieldUpdate) :
      Json.renderList (us.map FieldUpdate.render) = (Raw.list (us.map FieldUpdate.toRaw)).render := by
    rw [← Raw.renderList_eq, List.map_map]
    exact congrArg _ (List.map_congr_left fun u _ => u.render_eq)
  have hfields : m.fields = m.members.map fun e => (e.1, e.2.render) := by
    cases m with
    | syncState doc us => simp [fields, members, hlist, Raw.render]
    | update doc seq u => simp [fields, members, u.render_eq, Raw.render]; rfl
    | ack doc seq => simp [fields, members, Raw.render]; rfl
    | hello doc client => rfl
    | awareness doc client state => simp [fields, members, Raw.render, Value.render_toRaw]
    | error code msg => rfl
  rw [encode, hfields, ← Raw.renderRecord_eq]
  rfl

theorem kind_mem (m : SyncMessage) : m.kind ∈ family.kinds := by
  cases m <;> simp [kind, family]

theorem members_ne_type (m : SyncMessage) : ∀ e ∈ m.members, e.1 ≠ "type" := by
  cases m <;> simp [members]

theorem members_integral (h : m.Formed) (hi : m.Integral) : ∀ e ∈ m.members, e.2.Integral := by
  have hseq (n : Nat) (hn : n ∈ m.seq?) : (Raw.number (.int n)).Integral :=
    .number ⟨by omega, Int.ofNat_lt.2 (h.seq n hn)⟩
  have hupdate (u : FieldUpdate) (hu : u ∈ m.updates) : u.toRaw.Integral :=
    FieldUpdate.toRaw_integral (h.updates u hu) (hi.updates u hu)
  cases m with
  | hello doc client => simp [members, Raw.Integral.text]
  | syncState doc us =>
    have hlist : (Raw.list (us.map FieldUpdate.toRaw)).Integral :=
      .list (List.forall_mem_map.2 hupdate)
    simp [members, Raw.Integral.text, hlist]
  | update doc seq u =>
    simp [members, Raw.Integral.text, hseq seq rfl, hupdate u (List.mem_singleton_self u)]
  | ack doc seq => simp [members, Raw.Integral.text, hseq seq rfl]
  | awareness doc client state =>
    have hstate : (state.getD .null).toRaw.Integral := by
      cases state with
      | none => exact .null
      | some v => exact hi.state v rfl
    simp [members, Raw.Integral.text, hstate]
  | error code msg => simp [members, Raw.Integral.text]

theorem toOptional_state {state : Option Value} (h : ∀ v ∈ state, v.Ordered ∧ v.isNull = false) :
    Raw.toOptional (state.getD .null).toRaw = .ok state := by
  cases state with
  | none => rfl
  | some v =>
    obtain ⟨ho, hnull⟩ := h v rfl
    have hvalue : (.ok (some v.toRaw.toValue) : Json.Decoded (Option Value)) = .ok (some v) := by
      rw [Value.toValue_toRaw ho]
    cases v with
    | null => cases hnull
    | bool b => rfl
    | number n => rfl
    | text s => rfl
    | list vs => exact hvalue
    | object ms => exact hvalue

theorem toListOf_updates {us : List FieldUpdate} (h : ∀ u ∈ us, u.Formed) :
    Raw.toListOf FieldUpdate.ofRaw (.list (us.map FieldUpdate.toRaw)) = .ok us := by
  simp only [Raw.toListOf]
  induction us with
  | nil => rfl
  | cons u us ih =>
    obtain ⟨hu, hus⟩ := List.forall_mem_cons.1 h
    rw [List.map_cons, List.mapM_cons, FieldUpdate.ofRaw_toRaw hu, ih hus]
    rfl

theorem ofContent_members (h : m.Formed) : ofContent m.kind (.object m.members) = .ok m := by
  cases m with
  | hello doc client =>
    have hrecord : Json.record2 (header "Hello") (text "doc") (text "client")
        (.object (hello doc client).members) = .ok (doc, client) :=
      Json.record2_object (by decide) rfl rfl
    simp [ofContent, kind, hrecord]
  | syncState doc us =>
    have hrecord : Json.record2 (header "SyncState") (text "doc")
        ⟨"updates", Raw.toListOf FieldUpdate.ofRaw, none⟩ (.object (syncState doc us).members) =
        .ok (doc, us) :=
      Json.record2_object (by decide) rfl (toListOf_updates h.updates)
    simp [ofContent, kind, hrecord]
  | update doc seq u =>
    have hseq : (word "seq").read (.number (.int seq)) = .ok seq := by
      dsimp only [word]
      exact Raw.toWord_int (h.seq seq rfl)
    have hrecord : Json.record3 (header "Update") (text "doc") (word "seq")
        ⟨"update", FieldUpdate.ofRaw, none⟩ (.object (update doc seq u).members) = .ok (doc, seq, u) :=
      Json.record3_object (by decide) (by decide) (by decide) rfl hseq
        (FieldUpdate.ofRaw_toRaw (h.updates u (List.mem_singleton_self u)))
    simp [ofContent, kind, hrecord]
  | ack doc seq =>
    have hseq : (word "seq").read (.number (.int seq)) = .ok seq := by
      dsimp only [word]
      exact Raw.toWord_int (h.seq seq rfl)
    have hrecord : Json.record2 (header "Ack") (text "doc") (word "seq")
        (.object (ack doc seq).members) = .ok (doc, seq) :=
      Json.record2_object (by decide) rfl hseq
    simp [ofContent, kind, hrecord]
  | awareness doc client state =>
    have hrecord : Json.record3 (header "Awareness") (text "doc") (text "client")
        ⟨"state", Raw.toOptional, some none⟩ (.object (awareness doc client state).members) =
        .ok (doc, client, state) :=
      Json.record3_object (by decide) (by decide) (by decide) rfl rfl (toOptional_state h.state)
    simp [ofContent, kind, hrecord]
  | error code msg =>
    have hrecord : Json.record2 (header "Error") (text "code") (text "msg")
        (.object (error code msg).members) = .ok (code, msg) :=
      Json.record2_object (by decide) rfl rfl
    simp [ofContent, kind, hrecord]

/-- A message is decoded from its text. -/
theorem decode?_encode (h : m.Formed) (hi : m.Integral) (hd : m.depth ≤ greatestDepth) :
    decode? m.encode = .ok m := by
  rw [encode_eq, decode?]
  exact Json.Reader.decode_render m.kind_mem (members_integral h hi) m.members_ne_type hd
    (ofContent_members h)

/-- A message that is too deep is not decoded. -/
theorem decode?_encode_of_deep (h : m.Formed) (hi : m.Integral) (hd : greatestDepth < m.depth) :
    ∃ e, decode? m.encode = .error e := by
  rw [encode_eq]
  exact Json.Reader.decode_render_of_deep m.kind_mem (members_integral h hi) m.members_ne_type hd

/-! ### Levels -/

theorem depth_hello (doc client : String) : (hello doc client).depth = 1 := rfl

theorem depth_ack (doc : String) (seq : Nat) : (ack doc seq).depth = 1 := rfl

theorem depth_error (code msg : String) : (error code msg).depth = 1 := rfl

/-- A stored value takes three levels around it. -/
theorem depth_syncState_le_iff {doc : String} {us : List FieldUpdate} (hn : 1 ≤ n) :
    (syncState doc us).depth ≤ n + 3 ↔ ∀ u ∈ us, u.value.depth ≤ n := by
  have hlist : (Raw.list (us.map FieldUpdate.toRaw)).depth ≤ n + 2 ↔ ∀ u ∈ us, u.value.depth ≤ n := by
    rw [Raw.depth, Nat.succ_le_succ_iff, Raw.depthItems_le_iff, List.forall_mem_map]
    exact forall₂_congr fun u _ => FieldUpdate.depth_toRaw_le_iff hn
  have hmembers : (syncState doc us).depth = max 0 (max (Raw.list (us.map FieldUpdate.toRaw)).depth 0) + 1 :=
    rfl
  rw [← hlist, hmembers]
  omega

/-- A written value takes two. -/
theorem depth_update_le_iff {doc : String} {seq : Nat} {u : FieldUpdate} (hn : 1 ≤ n) :
    (update doc seq u).depth ≤ n + 2 ↔ u.value.depth ≤ n := by
  have hmembers : (update doc seq u).depth = max 0 (max 0 (max u.toRaw.depth 0)) + 1 := rfl
  rw [← FieldUpdate.depth_toRaw_le_iff hn, hmembers]
  omega

theorem depth_awareness_le_iff {doc client : String} {state : Option Value} :
    (awareness doc client state).depth ≤ n + 1 ↔ ∀ v ∈ state, v.depth ≤ n := by
  have hmembers : (awareness doc client state).depth =
      max 0 (max 0 (max (state.getD .null).toRaw.depth 0)) + 1 := rfl
  rw [hmembers, Value.depth_toRaw]
  cases state with
  | none => simp [Value.depth]
  | some v => simp

/-! ### Decoded messages -/

/-- Well formed, and not deeper than a text may be. -/
structure Decodable (m : SyncMessage) : Prop where
  formed : m.Formed
  depth_le : m.depth ≤ greatestDepth

theorem decodable_hello (doc client : String) : (hello doc client).Decodable :=
  ⟨⟨nofun, nofun, nofun⟩, by rw [depth_hello]; decide⟩

theorem decodable_error (code msg : String) : (error code msg).Decodable :=
  ⟨⟨nofun, nofun, nofun⟩, by rw [depth_error]; decide⟩

theorem decodable_ack (doc : String) {seq : Nat} (h : seq < twoTo 64) : (ack doc seq).Decodable :=
  ⟨⟨nofun, fun n hn => by cases hn; exact h, nofun⟩, by rw [depth_ack]; decide⟩

/-- Of 127 levels three stand around each value. -/
theorem decodable_syncState (doc : String) {us : List FieldUpdate}
    (h : ∀ u ∈ us, u.Formed ∧ u.value.depth ≤ 124) : (syncState doc us).Decodable :=
  ⟨⟨fun u hu => (h u hu).1, nofun, nofun⟩,
    (depth_syncState_le_iff (n := 124) (by decide)).2 fun u hu => (h u hu).2⟩

/-- Of 127 levels two stand around the value. -/
theorem decodable_update (doc : String) {seq : Nat} {u : FieldUpdate} (hseq : seq < twoTo 64)
    (hu : u.Formed) (hd : u.value.depth ≤ 125) : (update doc seq u).Decodable := by
  refine ⟨⟨fun v hv => ?_, fun n hn => ?_, nofun⟩, (depth_update_le_iff (n := 125) (by decide)).2 hd⟩
  · rw [List.mem_singleton.1 hv]
    exact hu
  · cases hn
    exact hseq

theorem decodable_awareness (doc client : String) {state : Option Value}
    (h : ∀ v ∈ state, v.Within 126 ∧ v.isNull = false) : (awareness doc client state).Decodable :=
  ⟨⟨nofun, nofun, fun v hv => ⟨(h v hv).1.ordered, (h v hv).2⟩⟩,
    depth_awareness_le_iff.2 fun v hv => (h v hv).1.depth_le⟩

theorem gives_toListOf {r : Raw} (h : r.depth ≤ n + 2) :
    Gives (Raw.toListOf FieldUpdate.ofRaw r) fun us => ∀ u ∈ us, u.Formed ∧ u.value.depth ≤ n := by
  cases r with
  | list rs =>
    refine Gives.mapM fun s hs => FieldUpdate.gives_ofRaw ?_
    exact Nat.le_of_lt_succ ((Raw.depth_lt_of_mem_list hs).trans_le h)
  | null => exact .error
  | bool b => exact .error
  | number n => exact .error
  | text s => exact .error
  | object ms => exact .error

theorem gives_toOptional {r : Raw} (h : r.depth ≤ n) :
    Gives r.toOptional fun state => ∀ v ∈ state, v.Within n ∧ v.isNull = false := by
  cases r with
  | null => exact .ok fun v hv => by cases hv
  | bool b => exact .ok fun v hv => by cases hv; exact ⟨Raw.toValue_within h, rfl⟩
  | number n => exact .ok fun v hv => by cases hv; exact ⟨Raw.toValue_within h, rfl⟩
  | text s => exact .ok fun v hv => by cases hv; exact ⟨Raw.toValue_within h, rfl⟩
  | list rs => exact .ok fun v hv => by cases hv; exact ⟨Raw.toValue_within h, rfl⟩
  | object ms => exact .ok fun v hv => by cases hv; exact ⟨Raw.toValue_within h, rfl⟩

theorem gives_ofContent {kind : String} {raw : Raw} (h : raw.depth ≤ greatestDepth) :
    Gives (ofContent kind raw) Decodable := by
  have htext (name : String) := Json.Slot.reads_toText name raw.parts
  have hword (name : String) := Json.Slot.reads_toWord name raw.parts
  have hpart {r : Raw} (hr : r ∈ raw.parts) : r.depth ≤ 126 :=
    Nat.le_of_lt_succ ((Raw.depth_lt_of_mem_parts hr).trans_le h)
  have hupdates : Json.Slot.Reads ⟨"updates", Raw.toListOf FieldUpdate.ofRaw, none⟩ raw.parts
      fun us => ∀ u ∈ us, u.Formed ∧ u.value.depth ≤ 124 :=
    ⟨fun r hr => gives_toListOf (hpart hr), nofun⟩
  have hupdate : Json.Slot.Reads ⟨"update", FieldUpdate.ofRaw, none⟩ raw.parts
      fun u => u.Formed ∧ u.value.depth ≤ 125 :=
    ⟨fun r hr => FieldUpdate.gives_ofRaw (hpart hr), nofun⟩
  have hstate : Json.Slot.Reads ⟨"state", Raw.toOptional, some none⟩ raw.parts
      fun state => ∀ v ∈ state, v.Within 126 ∧ v.isNull = false :=
    ⟨fun r hr => gives_toOptional (hpart hr), fun x hx v hv => by cases hx; cases hv⟩
  unfold ofContent
  split
  · exact .after fun z => .ok (decodable_hello z.1 z.2)
  · exact (Json.gives_record2 (htext "doc") hupdates).bind fun z hz => .ok (decodable_syncState z.1 hz.2)
  · exact (Json.gives_record3 (htext "doc") (hword "seq") hupdate).bind fun z hz =>
      .ok (decodable_update z.1 hz.2.1 hz.2.2.1 hz.2.2.2)
  · exact (Json.gives_record2 (htext "doc") (hword "seq")).bind fun z hz => .ok (decodable_ack z.1 hz.2)
  · exact (Json.gives_record3 (htext "doc") (htext "client") hstate).bind fun z hz =>
      .ok (decodable_awareness z.1 z.2.1 hz.2.2)
  · exact .after fun z => .ok (decodable_error z.1 z.2)
  · exact .error

/-- What is decoded from any text can be decoded again but for its numbers. -/
theorem decodable_of_decode? {s : String} (h : decode? s = .ok m) : m.Decodable :=
  (Json.Reader.gives_decode (fun _ _ => gives_ofContent) s).result m h

/-- A decodable message of integers is decoded from its text. -/
theorem Decodable.decode?_encode (h : m.Decodable) (hi : m.Integral) : decode? m.encode = .ok m :=
  SyncMessage.decode?_encode h.formed hi h.depth_le

/-! ### Parts that are passed on -/

/-- Integers throughout, at most so deep in an update and not too deep as presence. -/
abbrev Legible (n : Nat) : SyncMessage → Prop :=
  Carries (fun u => (u.Formed ∧ u.value.depth ≤ n) ∧ u.value.Integral) (· < twoTo 64)
    fun v => (v.Within 126 ∧ v.isNull = false) ∧ v.Integral

/-- An update leaves its value one level more than a `sync_state` does. -/
theorem Decodable.legible (h : m.Decodable) (hi : m.Integral) : m.Legible 125 := by
  obtain ⟨hformed, hdepth⟩ := h
  refine ⟨fun u hu => ⟨⟨hformed.updates u hu, ?_⟩, hi.updates u hu⟩, hformed.seq,
    fun v hv => ⟨⟨⟨(hformed.state v hv).1, ?_⟩, (hformed.state v hv).2⟩, hi.state v hv⟩⟩
  · cases m with
    | syncState doc us => exact ((depth_syncState_le_iff (n := 124) (by decide)).1 hdepth u hu).trans (by decide)
    | update doc seq v =>
      rw [List.mem_singleton.1 hu]
      exact (depth_update_le_iff (n := 125) (by decide)).1 hdepth
    | _ => cases hu
  · cases m with
    | awareness doc client state => exact depth_awareness_le_iff.1 hdepth v hv
    | _ => cases hv

theorem Legible.integral (h : m.Legible n) : m.Integral :=
  ⟨fun u hu => (h.updates u hu).2, fun _ _ => trivial, fun v hv => (h.state v hv).2⟩

/-- What may stand in an update is decodable unless it stands in a `sync_state`. -/
theorem Legible.decodable (h : m.Legible 125)
    (hstate : ∀ doc us, m = syncState doc us → ∀ u ∈ us, u.value.depth ≤ 124) : m.Decodable := by
  cases m with
  | hello doc client => exact decodable_hello doc client
  | syncState doc us =>
    exact decodable_syncState doc fun u hu => ⟨(h.updates u hu).1.1, hstate doc us rfl u hu⟩
  | update doc seq u =>
    have hu := (h.updates u (List.mem_singleton_self u)).1
    exact decodable_update doc (h.seq seq rfl) hu.1 hu.2
  | ack doc seq => exact decodable_ack doc (h.seq seq rfl)
  | awareness doc client state => exact decodable_awareness doc client fun v hv => (h.state v hv).1
  | error code msg => exact decodable_error code msg

theorem Legible.decode?_encode_iff (h : m.Legible 125) : decode? m.encode = .ok m ↔
    ∀ doc us, m = syncState doc us → ∀ u ∈ us, u.value.depth ≤ 124 := by
  constructor
  · rintro hm doc us rfl
    exact (depth_syncState_le_iff (n := 124) (by decide)).1 (decodable_of_decode? hm).depth_le
  · exact fun hstate => (h.decodable hstate).decode?_encode h.integral

end SyncMessage

end SecureLayout.Wire
