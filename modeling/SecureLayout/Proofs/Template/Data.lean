import SecureLayout.Proofs.Entries
import SecureLayout.Proofs.Json.Rendering
import SecureLayout.Template.Arithmetic

/-!
Data as templates compute with it. Main statements: members and items of data are found under their names and positions,
a map of named data is an object, and what goes out is what came in, `toJson_ofJson` and `toJson_mapOf`.
-/

namespace SecureLayout.Json

/-- An integer of 64 bits or a finite double. -/
def Number.IsPortable : Number → Prop
  | int n => (Number.int n).IsWord
  | float x => x.isFinite = true

namespace Value

/-- What a JSON text may hold: members in key order, each key once, and numbers that are portable. -/
inductive Portable : Value → Prop
  | null : Portable .null
  | bool (b : Bool) : Portable (.bool b)
  | number {n : Number} (h : n.IsPortable) : Portable (.number n)
  | text (s : String) : Portable (.text s)
  | list {vs : List Value} (h : ∀ v ∈ vs, Portable v) : Portable (.list vs)
  | object {ms : Entries Value} (hs : Entries.Sorted ms) (h : ∀ m ∈ ms, Portable m.2) : Portable (.object ms)

theorem Ordered.portable {v : Value} (ho : v.Ordered) (hi : v.Integral) : v.Portable := by
  induction ho with
  | null => exact .null
  | bool b => exact .bool b
  | number n =>
    cases hi with
    | number hn =>
    cases n with
    | int n => exact .number hn
    | float x => cases hn
  | text s => exact .text s
  | list h ih =>
    rw [Integral, toRaw, toRawItems_eq] at hi
    cases hi with
    | list hi => exact .list fun v hv => ih v hv (hi _ (List.mem_map_of_mem hv))
  | object hs h ih =>
    rw [Integral, toRaw, toRawMembers_eq] at hi
    cases hi with
    | object hi => exact .object hs fun m hm => ih m hm (hi (m.1, m.2.toRaw) (List.mem_map_of_mem hm))

/-- What stands at a position: an item of a list or a character of a text. Positions are words of 63 bits. -/
def item? (k : Nat) : Value → Option Value
  | list vs => if k < Numeric.twoTo 63 then vs[k]? else none
  | text s => if k < Numeric.twoTo 63 then s.toList[k]?.map fun c => .text (String.singleton c) else none
  | _ => none

theorem Portable.member? {v w : Value} {n : String} (h : v.Portable) (hw : v.member? n = some w) : w.Portable := by
  cases h with
  | object hs h => exact h (n, w) (Entries.mem_of_get? hw)
  | _ => cases hw

theorem Portable.item? {v w : Value} {k : Nat} (h : v.Portable) (hw : v.item? k = some w) : w.Portable := by
  cases h with
  | text s =>
    unfold Value.item? at hw
    split_ifs at hw
    obtain ⟨c, -, rfl⟩ := Option.map_eq_some_iff.1 hw
    exact .text _
  | list h =>
    unfold Value.item? at hw
    split_ifs at hw
    exact h w (List.mem_of_getElem? hw)
  | _ => cases hw

end Value

end SecureLayout.Json

namespace SecureLayout.Template.Value

variable {n : Nat} {v : Json.Value} {vs : List Json.Value} {objects : Nat → List Char}

theorem cmp_plainText (a b : String) : cmp (plainText a) (plainText b) = compareOfLessAndEq a b := by
  unfold plainText
  rw [cmp]

/-! ### Members and items -/

theorem ofJsonItems_eq (vs : List Json.Value) : ofJsonItems vs = vs.map ofJson := by
  induction vs with
  | nil => rfl
  | cons v vs ih => rw [ofJsonItems, ih, List.map_cons]

theorem ofJsonMembers_eq (ms : List (String × Json.Value)) :
    ofJsonMembers ms = ms.map fun m => (plainText m.1, ofJson m.2) := by
  induction ms with
  | nil => rfl
  | cons m ms ih => rw [ofJsonMembers, ih, List.map_cons]

theorem lookup?_plainText {α : Type} (f : α → Value) (k : String) (es : Entries α) :
    lookup? (plainText k) (es.map fun e => (plainText e.1, f e.2)) = (Entries.get? k es).map f := by
  induction es with
  | nil => rfl
  | cons e es ih =>
    obtain ⟨a, v⟩ := e
    rw [List.map_cons, lookup?, cmp_plainText, ih, Entries.get?]
    unfold compareOfLessAndEq
    by_cases h : k = a
    · subst h
      rw [if_neg (lt_irrefl k), if_pos rfl, if_pos rfl]
      rfl
    · rw [if_neg h, if_neg h]
      split <;> rfl

theorem attr?_ofJson (v : Json.Value) (name : String) : (ofJson v).attr? name = (v.member? name).map ofJson := by
  cases v with
  | object ms =>
    rw [ofJson, attr?, ofJsonMembers_eq, lookup?_plainText]
    rfl
  | number x => cases x <;> rfl
  | _ => rfl

theorem toIndex?_int (k : Nat) : (int k).toIndex? = if k < Numeric.twoTo 63 then some (k : Int) else Option.none := by
  have h63 : Numeric.twoTo 63 ≤ Numeric.twoTo 127 := by decide
  have hindex : isWord64 k = decide (k < Numeric.twoTo 63) := by
    rw [isWord64, Bool.eq_iff_iff, Bool.and_eq_true, decide_eq_true_eq, decide_eq_true_eq, decide_eq_true_eq]
    omega
  rw [toIndex?, toInt?]
  split
  · rw [Option.filter_some, hindex]
    simp only [decide_eq_true_eq]
  · next hword =>
    have hlarge : ¬k < Numeric.twoTo 63 := by
      simp only [isWord128, Bool.and_eq_true, decide_eq_true_eq] at hword
      omega
    rw [if_neg hlarge]
    rfl

theorem lookup?_int (k : Nat) (ms : List (String × Json.Value)) :
    lookup? (int k) (ofJsonMembers ms) = Option.none := by
  induction ms with
  | nil => rfl
  | cons m ms ih =>
    have hcmp : cmp (int k) (plainText m.1) = .lt := by
      unfold plainText
      rw [cmp]
      · rfl
      all_goals nofun
    rw [ofJsonMembers, lookup?, hcmp]
    exact ih

theorem item?_ofJson (v : Json.Value) (k : Nat) : (ofJson v).item? (.int k) = (v.item? k).map ofJson := by
  have hposition (length : Nat) : position? length k = some k := by
    rw [position?, if_pos (Int.natCast_nonneg k), Int.toNat_natCast]
  cases v with
  | list vs =>
    rw [ofJson, item?, itemAt?, toIndex?_int, Json.Value.item?]
    split
    · rw [Option.bind_some, hposition, Option.bind_some, ofJsonItems_eq, List.getElem?_map]
    · rfl
  | text s =>
    change (((int k).toIndex?.bind (position? s.toList.length)).bind fun i => s.toList[i]?).map
      (fun c => plainText (String.singleton c)) = _
    rw [toIndex?_int, Json.Value.item?]
    split
    · rw [Option.bind_some, hposition, Option.bind_some, Option.map_map]
      rfl
    · rfl
  | object ms => exact lookup?_int k ms
  | number x => cases x <;> rfl
  | _ => rfl

/-! ### Maps -/

theorem insert_plainText (k : String) (v : Value) (es : Entries Value) :
    insert (plainText k) v (es.map fun e => (plainText e.1, e.2)) =
      (Entries.put k v es).map fun e => (plainText e.1, e.2) := by
  induction es with
  | nil => rfl
  | cons e es ih =>
    obtain ⟨a, w⟩ := e
    rw [List.map_cons, insert, cmp_plainText, Entries.put, ih]
    unfold compareOfLessAndEq
    split_ifs with hlt heq
    · rfl
    · rw [heq]
      rfl
    · rfl

theorem mapOf_plainText (es : List (String × Value)) :
    mapOf (es.map fun e => (plainText e.1, e.2)) = ofEntries (Entries.ofList es) := by
  have hfold : ∀ m : Entries Value, (es.map fun e => (plainText e.1, e.2)).foldl (fun m e => insert e.1 e.2 m)
      (m.map fun e => (plainText e.1, e.2)) =
        (es.foldl (fun m e => Entries.put e.1 e.2 m) m).map fun e => (plainText e.1, e.2) := by
    induction es with
    | nil => exact fun _ => rfl
    | cons e es ih =>
      intro m
      rw [List.map_cons, List.foldl_cons, insert_plainText, ih, List.foldl_cons]
  exact congrArg map (hfold [])

/-! ### Out again -/

theorem toJsonItems_ok {xs : List Value} {vs : List Json.Value}
    (h : List.Forall₂ (fun x v => x.toJson objects = .ok v) xs vs) : toJsonItems objects xs = .ok vs := by
  induction h with
  | nil => rw [toJsonItems]
  | cons h hrest ih =>
    rw [toJsonItems, h, ih]
    rfl

theorem toJsonMembers_ok {es : List (String × Value)} {ms : List (String × Json.Value)}
    (h : List.Forall₂ (fun e m => e.1 = m.1 ∧ e.2.toJson objects = .ok m.2) es ms) :
    toJsonMembers objects (es.map fun e => (plainText e.1, e.2)) = .ok ms := by
  induction h with
  | nil => rw [List.map_nil, toJsonMembers]
  | @cons e m es ms h hrest ih =>
    obtain ⟨k, x⟩ := e
    obtain ⟨k', v⟩ := m
    obtain ⟨hk, hx⟩ := h
    obtain rfl : k = k' := hk
    rw [List.map_cons, toJsonMembers, hx, ih]
    rfl

theorem toJson_ofJson (h : v.Portable) : (ofJson v).toJson objects = .ok v := by
  induction h with
  | null => rfl
  | bool b => rfl
  | @number x hx =>
    cases x with
    | float x =>
      have hfinite : x.isFinite = true := hx
      rw [ofJson, toJson, if_pos hfinite]
    | int k =>
      have hword : isJsonInt k = true := by
        obtain ⟨hlow, hhigh⟩ : -(Numeric.twoTo 63 : Int) ≤ k ∧ k < (Numeric.twoTo 64 : Int) := hx
        rw [isJsonInt, Bool.and_eq_true]
        exact ⟨decide_eq_true hlow, decide_eq_true hhigh⟩
      rw [ofJson, toJson, if_pos hword]
  | text s => rfl
  | @list vs h ih =>
    have hitems : List.Forall₂ (fun x v => x.toJson objects = .ok v) (ofJsonItems vs) vs := by
      rw [ofJsonItems_eq, List.forall₂_map_left_iff, List.forall₂_same]
      exact ih
    rw [ofJson, toJson, toJsonItems_ok hitems]
    rfl
  | @object ms hs h ih =>
    have hmembers : List.Forall₂ (fun e m => e.1 = m.1 ∧ e.2.toJson objects = .ok m.2)
        (ms.map fun m => (m.1, ofJson m.2)) ms := by
      rw [List.forall₂_map_left_iff, List.forall₂_same]
      exact fun m hm => ⟨rfl, ih m hm⟩
    have hok := toJsonMembers_ok hmembers
    rw [List.map_map] at hok
    rw [ofJson, toJson, ofJsonMembers_eq]
    change (toJsonMembers objects (ms.map ((fun e => (plainText e.1, e.2)) ∘ fun m => (m.1, ofJson m.2))) >>= _) = _
    rw [hok]
    change Except.ok (Json.Value.ofMembers ms) = _
    rw [Json.Value.ofMembers, Entries.ofList_of_sorted hs]

/-- An object of named values goes out of a map of them, whatever their order. -/
theorem toJson_mapOf {es : List (String × Value)} {ms : List (String × Json.Value)}
    (h : List.Forall₂ (fun e m => e.1 = m.1 ∧ e.2.toJson objects = .ok m.2) es ms) :
    (mapOf (es.map fun e => (plainText e.1, e.2))).toJson objects = .ok (.ofMembers ms) := by
  have hall := Entries.forall₂_ofList (R := fun (x : Value) (v : Json.Value) => x.toJson objects = .ok v) h
  rw [mapOf_plainText, ofEntries, toJson, toJsonMembers_ok hall]
  change Except.ok (Json.Value.ofMembers (Entries.ofList ms)) = _
  rw [Json.Value.ofMembers, Entries.ofList_of_sorted (Entries.sorted_ofList ms)]
  rfl

end SecureLayout.Template.Value
