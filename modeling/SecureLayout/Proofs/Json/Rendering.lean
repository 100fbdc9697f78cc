import SecureLayout.Json.Printer
import SecureLayout.Json.Reader
import SecureLayout.Proofs.Entries

/-!
What is written, as a tree. `Raw.render` writes a tree as it stands; values, lists and records are written as
trees, and forgetting the order of a tree's members gives a value whose members are ordered.
Main statements: a value in key order is what its own tree stands for, and neither depth nor numbers change.
-/

namespace SecureLayout.Json

open SecureLayout.Numeric

/-- A 64-bit integer: signed below zero, unsigned above. -/
def Number.IsWord : Number → Prop
  | int n => -(twoTo 63 : Int) ≤ n ∧ n < (twoTo 64 : Int)
  | float _ => False

namespace Raw

/-- What stands before an item or a member. -/
def comma (first : Bool) : List Char :=
  if first then [] else [',']

mutual

/-- Compact text, members in the order of the tree. -/
def render : Raw → List Char
  | null => ['n', 'u', 'l', 'l']
  | bool true => ['t', 'r', 'u', 'e']
  | bool false => ['f', 'a', 'l', 's', 'e']
  | number n => n.render
  | text s => renderText s.toList
  | list rs => '[' :: (renderItems true rs ++ [']'])
  | object ms => '\x7b' :: (renderMembers true ms ++ ['\x7d'])

def renderItems : Bool → List Raw → List Char
  | _, [] => []
  | first, r :: rs => comma first ++ (render r ++ renderItems false rs)

def renderMembers : Bool → List (String × Raw) → List Char
  | _, [] => []
  | first, (k, r) :: ms =>
    comma first ++ (renderText k.toList ++ ':' :: (render r ++ renderMembers false ms))

end

mutual

/-- Levels of lists and objects around the deepest part. -/
def depth : Raw → Nat
  | list rs => depthItems rs + 1
  | object ms => depthMembers ms + 1
  | _ => 0

def depthItems : List Raw → Nat
  | [] => 0
  | r :: rs => max (depth r) (depthItems rs)

def depthMembers : List (String × Raw) → Nat
  | [] => 0
  | (_, r) :: ms => max (depth r) (depthMembers ms)

end

/-- Every number is a 64-bit integer. -/
inductive Integral : Raw → Prop
  | null : Integral .null
  | bool (b : Bool) : Integral (.bool b)
  | number {n : Number} (h : n.IsWord) : Integral (.number n)
  | text (s : String) : Integral (.text s)
  | list {rs : List Raw} (h : ∀ r ∈ rs, Integral r) : Integral (.list rs)
  | object {ms : List (String × Raw)} (h : ∀ m ∈ ms, Integral m.2) : Integral (.object ms)

variable {n : Nat} {r : Raw} {rs : List Raw} {ms : List (String × Raw)}

/-- What holds of scalars, and of a list or an object when it holds of all in it. -/
theorem treeInduction {P : Raw → Prop} (null : P .null) (bool : ∀ b, P (.bool b))
    (number : ∀ n, P (.number n)) (text : ∀ s, P (.text s))
    (list : ∀ rs, (∀ r ∈ rs, P r) → P (.list rs))
    (object : ∀ ms, (∀ m ∈ ms, P m.2) → P (.object ms)) (r : Raw) : P r := by
  refine @Raw.rec P (fun rs => ∀ r ∈ rs, P r) (fun ms => ∀ m ∈ ms, P m.2) (fun m => P m.2)
    null bool number text list object ?_ ?_ ?_ ?_ ?_ r
  · exact fun r hr => absurd hr List.not_mem_nil
  · exact fun r rs hr hrs => List.forall_mem_cons.2 ⟨hr, hrs⟩
  · exact fun m hm => absurd hm List.not_mem_nil
  · exact fun m ms hm hms => List.forall_mem_cons.2 ⟨hm, hms⟩
  · exact fun k r hr => hr

theorem depthItems_le_iff : depthItems rs ≤ n ↔ ∀ r ∈ rs, r.depth ≤ n := by
  induction rs with
  | nil => simp [depthItems]
  | cons r rs ih => simp [depthItems, ih]

theorem depthMembers_le_iff : depthMembers ms ≤ n ↔ ∀ m ∈ ms, m.2.depth ≤ n := by
  induction ms with
  | nil => simp [depthMembers]
  | cons m ms ih => simp [depthMembers, ih]

theorem depth_lt_of_mem_list (h : r ∈ rs) : r.depth < (list rs).depth :=
  Nat.lt_succ_of_le (depthItems_le_iff.1 le_rfl r h)

theorem depth_lt_of_mem_object {m : String × Raw} (h : m ∈ ms) : m.2.depth < (object ms).depth :=
  Nat.lt_succ_of_le (depthMembers_le_iff.1 le_rfl m h)

theorem toValues_eq (rs : List Raw) : toValues rs = rs.map toValue := by
  induction rs with
  | nil => rfl
  | cons r rs ih => rw [toValues, ih, List.map_cons]

theorem toMembers_eq (ms : List (String × Raw)) : toMembers ms = ms.map fun m => (m.1, m.2.toValue) := by
  induction ms with
  | nil => rfl
  | cons m ms ih => rw [toMembers, ih, List.map_cons]

end Raw

namespace Value

/-- Members of objects stand in key order, each key once. -/
inductive Ordered : Value → Prop
  | null : Ordered .null
  | bool (b : Bool) : Ordered (.bool b)
  | number (n : Number) : Ordered (.number n)
  | text (s : String) : Ordered (.text s)
  | list {vs : List Value} (h : ∀ v ∈ vs, Ordered v) : Ordered (.list vs)
  | object {ms : Entries Value} (hs : Entries.Sorted ms) (h : ∀ m ∈ ms, Ordered m.2) :
    Ordered (.object ms)

mutual

/-- The tree of a value. -/
def toRaw : Value → Raw
  | null => .null
  | bool b => .bool b
  | number n => .number n
  | text s => .text s
  | list vs => .list (toRawItems vs)
  | object ms => .object (toRawMembers ms)

def toRawItems : List Value → List Raw
  | [] => []
  | v :: vs => toRaw v :: toRawItems vs

def toRawMembers : List (String × Value) → List (String × Raw)
  | [] => []
  | (k, v) :: ms => (k, toRaw v) :: toRawMembers ms

end

/-- Every number is a 64-bit integer. -/
def Integral (v : Value) : Prop :=
  v.toRaw.Integral

/-- In key order and at most so deep. -/
structure Within (n : Nat) (v : Value) : Prop where
  ordered : v.Ordered
  depth_le : v.depth ≤ n

variable {n : Nat} {v : Value} {vs : List Value} {ms : Entries Value}

theorem Within.mono {m : Nat} (h : v.Within n) (hnm : n ≤ m) : v.Within m :=
  ⟨h.ordered, h.depth_le.trans hnm⟩

/-- As for trees. -/
theorem treeInduction {P : Value → Prop} (null : P .null) (bool : ∀ b, P (.bool b))
    (number : ∀ n, P (.number n)) (text : ∀ s, P (.text s))
    (list : ∀ vs, (∀ v ∈ vs, P v) → P (.list vs))
    (object : ∀ ms : Entries Value, (∀ m ∈ ms, P m.2) → P (.object ms)) (v : Value) : P v := by
  refine @Value.rec P (fun vs => ∀ v ∈ vs, P v) (fun ms => ∀ m ∈ ms, P m.2) (fun m => P m.2)
    null bool number text list object ?_ ?_ ?_ ?_ ?_ v
  · exact fun v hv => absurd hv List.not_mem_nil
  · exact fun v vs hv hvs => List.forall_mem_cons.2 ⟨hv, hvs⟩
  · exact fun m hm => absurd hm List.not_mem_nil
  · exact fun m ms hm hms => List.forall_mem_cons.2 ⟨hm, hms⟩
  · exact fun k v hv => hv

theorem toRawItems_eq (vs : List Value) : toRawItems vs = vs.map toRaw := by
  induction vs with
  | nil => rfl
  | cons v vs ih => rw [toRawItems, ih, List.map_cons]

theorem toRawMembers_eq (ms : List (String × Value)) :
    toRawMembers ms = ms.map fun m => (m.1, m.2.toRaw) := by
  induction ms with
  | nil => rfl
  | cons m ms ih => rw [toRawMembers, ih, List.map_cons]

theorem depthItems_le_iff : depthItems vs ≤ n ↔ ∀ v ∈ vs, v.depth ≤ n := by
  induction vs with
  | nil => simp [depthItems]
  | cons v vs ih => simp [depthItems, ih]

theorem depthMembers_le_iff : depthMembers ms ≤ n ↔ ∀ m ∈ ms, m.2.depth ≤ n := by
  induction ms with
  | nil => simp [depthMembers]
  | cons m ms ih => simp [depthMembers, ih]

theorem renderItems_eq (v : Value) (vs : List Value) (hv : v.toRaw.render = v.render)
    (h : ∀ v ∈ vs, v.toRaw.render = v.render) :
    (Raw.renderItems true (toRawItems (v :: vs))) ++ [']'] = v.render ++ renderItems vs := by
  have hrest : ∀ vs : List Value, (∀ v ∈ vs, v.toRaw.render = v.render) →
      Raw.renderItems false (toRawItems vs) ++ [']'] = renderItems vs := by
    intro vs
    induction vs with
    | nil => intro _; rfl
    | cons v vs ih =>
      intro h
      obtain ⟨hv, hvs⟩ := List.forall_mem_cons.1 h
      simp [toRawItems, Raw.renderItems, Raw.comma, renderItems, hv, ← ih hvs]
  simp [toRawItems, Raw.renderItems, Raw.comma, hv, ← hrest vs h]

theorem renderMembers_eq (k : String) (v : Value) (ms : Entries Value)
    (hv : v.toRaw.render = v.render) (h : ∀ m ∈ ms, m.2.toRaw.render = m.2.render) :
    Raw.renderMembers true (toRawMembers ((k, v) :: ms)) ++ ['\x7d'] =
      renderText k.toList ++ ':' :: (v.render ++ renderMembers ms) := by
  have hrest : ∀ ms : Entries Value, (∀ m ∈ ms, m.2.toRaw.render = m.2.render) →
      Raw.renderMembers false (toRawMembers ms) ++ ['\x7d'] = renderMembers ms := by
    intro ms
    induction ms with
    | nil => intro _; rfl
    | cons m ms ih =>
      intro h
      obtain ⟨hm, hms⟩ := List.forall_mem_cons.1 h
      simp [toRawMembers, Raw.renderMembers, Raw.comma, renderMembers, hm, ← ih hms]
  simp [toRawMembers, Raw.renderMembers, Raw.comma, hv, ← hrest ms h]

/-- A value is written as its tree. -/
theorem render_toRaw (v : Value) : v.toRaw.render = v.render := by
  induction v using treeInduction with
  | null => rfl
  | bool b => cases b <;> rfl
  | number n => rfl
  | text s => rfl
  | list vs ih =>
    cases vs with
    | nil => rfl
    | cons v vs =>
      obtain ⟨hv, hvs⟩ := List.forall_mem_cons.1 ih
      rw [toRaw, Raw.render, renderItems_eq v vs hv hvs, render]
  | object ms ih =>
    cases ms with
    | nil => rfl
    | cons m ms =>
      obtain ⟨hm, hms⟩ := List.forall_mem_cons.1 ih
      rw [toRaw, Raw.render, renderMembers_eq m.1 m.2 ms hm hms, render]

theorem depth_toRaw (v : Value) : v.toRaw.depth = v.depth := by
  induction v using treeInduction with
  | null => rfl
  | bool b => rfl
  | number n => rfl
  | text s => rfl
  | list vs ih =>
    have h : Raw.depthItems (toRawItems vs) = depthItems vs := by
      induction vs with
      | nil => rfl
      | cons v vs ihs =>
        obtain ⟨hv, hvs⟩ := List.forall_mem_cons.1 ih
        rw [toRawItems, Raw.depthItems, depthItems, hv, ihs hvs]
    rw [toRaw, Raw.depth, depth, h]
  | object ms ih =>
    have h : Raw.depthMembers (toRawMembers ms) = depthMembers ms := by
      induction ms with
      | nil => rfl
      | cons m ms ihs =>
        obtain ⟨hm, hms⟩ := List.forall_mem_cons.1 ih
        rw [toRawMembers, Raw.depthMembers, depthMembers, hm, ihs hms]
    rw [toRaw, Raw.depth, depth, h]

/-- Nothing is lost in the tree of a value that is in key order. -/
theorem toValue_toRaw (h : v.Ordered) : v.toRaw.toValue = v := by
  induction h with
  | null => rfl
  | bool b => rfl
  | number n => rfl
  | text s => rfl
  | list h ih =>
    rw [toRaw, Raw.toValue, Raw.toValues_eq, toRawItems_eq, List.map_map]
    exact congrArg list (List.map_congr_left ih |>.trans (List.map_id _))
  | @object ms hs h ih =>
    rw [toRaw, Raw.toValue, Raw.toMembers_eq, toRawMembers_eq, List.map_map]
    have hsame : ms.map ((fun m => (m.1, m.2.toValue)) ∘ fun m => (m.1, m.2.toRaw)) = ms.map id :=
      List.map_congr_left fun m hm => Prod.ext rfl (ih m hm)
    rw [hsame, List.map_id, Entries.ofList_of_sorted hs]

/-! ### Values that are read back -/

/-- In key order, at most so deep, and of integers. -/
structure Fits (n : Nat) (v : Value) : Prop extends Within n v where
  integral : v.Integral

theorem Fits.mono {m : Nat} (h : v.Fits n) (hnm : n ≤ m) : v.Fits m :=
  ⟨h.toWithin.mono hnm, h.integral⟩

theorem fits_object_iff : (object ms).Fits (n + 1) ↔ Entries.Sorted ms ∧ ∀ m ∈ ms, m.2.Fits n := by
  constructor
  · rintro ⟨⟨ho, hd⟩, hi⟩
    rw [Integral, toRaw, toRawMembers_eq] at hi
    cases ho with
    | object hs ho =>
    cases hi with
    | object hi =>
    refine ⟨hs, fun m hm => ⟨⟨ho m hm, ?_⟩, ?_⟩⟩
    · exact depthMembers_le_iff.1 (Nat.le_of_succ_le_succ hd) m hm
    · exact hi (m.1, m.2.toRaw) (List.mem_map_of_mem hm)
  · rintro ⟨hs, h⟩
    refine ⟨⟨.object hs fun m hm => (h m hm).ordered, ?_⟩, ?_⟩
    · exact Nat.succ_le_succ (depthMembers_le_iff.2 fun m hm => (h m hm).depth_le)
    · rw [Integral, toRaw, toRawMembers_eq]
      refine .object fun m hm => ?_
      obtain ⟨a, ha, rfl⟩ := List.mem_map.1 hm
      exact (h a ha).integral

end Value

namespace Raw

variable {r : Raw}

theorem toValue_ordered (r : Raw) : r.toValue.Ordered := by
  induction r using treeInduction with
  | null => exact .null
  | bool b => exact .bool b
  | number n => exact .number n
  | text s => exact .text s
  | list rs ih =>
    rw [toValue, toValues_eq]
    exact .list (List.forall_mem_map.2 ih)
  | object ms ih =>
    rw [toValue, toMembers_eq]
    refine .object (Entries.sorted_ofList _) fun m hm => ?_
    obtain ⟨a, ha, rfl⟩ := List.mem_map.1 (Entries.mem_ofList hm)
    exact ih a ha

theorem depth_toValue_le (r : Raw) : r.toValue.depth ≤ r.depth := by
  induction r using treeInduction with
  | null => exact le_rfl
  | bool b => exact le_rfl
  | number n => exact le_rfl
  | text s => exact le_rfl
  | list rs ih =>
    rw [toValue, toValues_eq, Value.depth, depth]
    refine Nat.succ_le_succ (Value.depthItems_le_iff.2 (List.forall_mem_map.2 fun r hr => ?_))
    exact (ih r hr).trans (depthItems_le_iff.1 le_rfl r hr)
  | object ms ih =>
    rw [toValue, toMembers_eq, Value.depth, depth]
    refine Nat.succ_le_succ (Value.depthMembers_le_iff.2 fun m hm => ?_)
    obtain ⟨a, ha, rfl⟩ := List.mem_map.1 (Entries.mem_ofList hm)
    exact (ih a ha).trans (depthMembers_le_iff.1 le_rfl a ha)

theorem toValue_within {n : Nat} (h : r.depth ≤ n) : r.toValue.Within n :=
  ⟨r.toValue_ordered, r.depth_toValue_le.trans h⟩

/-- A record of written trees is the text of one. -/
theorem renderRecord_eq (ms : List (String × Raw)) :
    renderRecord (ms.map fun m => (m.1, m.2.render)) = (object ms).render := by
  have hrest : ∀ ms : List (String × Raw),
      renderFields (ms.map fun m => (m.1, m.2.render)) = renderMembers false ms ++ ['\x7d'] := by
    intro ms
    induction ms with
    | nil => rfl
    | cons m ms ih => simp [renderFields, renderMembers, comma, ih]
  cases ms with
  | nil => rfl
  | cons m ms => simp [renderRecord, render, renderMembers, comma, hrest]

theorem renderList_eq (rs : List Raw) : renderList (rs.map render) = (list rs).render := by
  have hrest : ∀ rs : List Raw, (rs.map render).flatMap (',' :: ·) = renderItems false rs := by
    intro rs
    induction rs with
    | nil => rfl
    | cons r rs ih => simp [renderItems, comma, ih]
  cases rs with
  | nil => rfl
  | cons r rs => simp [renderList, render, renderItems, comma, hrest]

end Raw

end SecureLayout.Json
