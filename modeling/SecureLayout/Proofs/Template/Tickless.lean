import SecureLayout.Proofs.Entries
import SecureLayout.Proofs.Gives
import SecureLayout.Template.Evaluation

/-!
Values that the function which counts loop bodies does not occur in. Main statement: operators, filters and
calls of other functions make such values out of such values.
-/

namespace SecureLayout

namespace Template

/-- The function that counts loop bodies does not occur in the value. -/
inductive Value.Tickless : Value → Prop
  | undefined (silent : Bool) : Tickless (.undefined silent)
  | none : Tickless .none
  | bool (b : Bool) : Tickless (.bool b)
  | int (n : Int) : Tickless (.int n)
  | float (x : Numeric.Double) : Tickless (.float x)
  | text (s : String) (safe : Bool) : Tickless (.text s safe)
  | list {vs : List Value} (h : ∀ v ∈ vs, Tickless v) : Tickless (.list vs)
  | iterable {vs : List Value} (h : ∀ v ∈ vs, Tickless v) : Tickless (.iterable vs)
  | map {es : List (Value × Value)} (hk : ∀ e ∈ es, Tickless e.1) (hv : ∀ e ∈ es, Tickless e.2) :
      Tickless (.map es)
  | object (sort : ObjectSort) (ref : Nat) : Tickless (.object sort ref)
  | function {f : Builtin} (h : f ≠ .tick) : Tickless (.function f)

namespace Value

variable {v w : Value} {vs : List Value} {es : List (Value × Value)}

attribute [simp] Tickless.undefined Tickless.none Tickless.bool Tickless.int Tickless.float Tickless.text
  Tickless.object

@[simp] theorem tickless_list : (list vs).Tickless ↔ ∀ v ∈ vs, v.Tickless := by
  constructor
  · intro h
    cases h
    assumption
  · exact .list

@[simp] theorem tickless_iterable : (iterable vs).Tickless ↔ ∀ v ∈ vs, v.Tickless := by
  constructor
  · intro h
    cases h
    assumption
  · exact .iterable

@[simp] theorem tickless_map : (map es).Tickless ↔ ∀ e ∈ es, e.1.Tickless ∧ e.2.Tickless := by
  constructor
  · intro h e he
    cases h with
    | map hk hv => exact ⟨hk e he, hv e he⟩
  · intro h
    exact .map (fun e he => (h e he).1) fun e he => (h e he).2

@[simp] theorem tickless_function {f : Builtin} : (function f).Tickless ↔ f ≠ .tick := by
  constructor
  · intro h
    cases h
    assumption
  · exact .function

@[simp] theorem tickless_plainText (s : String) : (plainText s).Tickless := .text s false

@[simp] theorem tickless_safeText (s : String) : (safeText s).Tickless := .text s true

@[simp] theorem tickless_toText (cs : List Char) : (Filter.toText cs).Tickless := .text _ false

theorem tickless_getD {o : Option Value} (h : ∀ v ∈ o, v.Tickless) (hd : w.Tickless) : (o.getD w).Tickless := by
  cases o with
  | none => exact hd
  | some v => exact h v rfl

theorem tickless_ofLiteral (l : Literal) : (ofLiteral l).Tickless := by
  cases l <;> simp [ofLiteral]

mutual

theorem tickless_ofJson (j : Json.Value) : (ofJson j).Tickless := by
  cases j with
  | null => simp [ofJson]
  | bool b => simp [ofJson]
  | number n => cases n <;> simp [ofJson]
  | text s => simp [ofJson]
  | list items => simpa [ofJson] using tickless_ofJsonItems items
  | object ms => simpa [ofJson] using tickless_ofJsonMembers ms

theorem tickless_ofJsonItems (items : List Json.Value) : ∀ v ∈ ofJsonItems items, v.Tickless := by
  cases items with
  | nil => simp [ofJsonItems]
  | cons j items =>
    rw [ofJsonItems]
    exact List.forall_mem_cons.2 ⟨tickless_ofJson j, tickless_ofJsonItems items⟩

theorem tickless_ofJsonMembers (ms : List (String × Json.Value)) :
    ∀ e ∈ ofJsonMembers ms, e.1.Tickless ∧ e.2.Tickless := by
  cases ms with
  | nil => simp [ofJsonMembers]
  | cons m ms =>
    rw [ofJsonMembers]
    exact List.forall_mem_cons.2 ⟨⟨.text _ _, tickless_ofJson m.2⟩, tickless_ofJsonMembers ms⟩

end

theorem tickless_ofEntries {es : Entries Value} (h : ∀ e ∈ es, e.2.Tickless) : (ofEntries es).Tickless := by
  rw [ofEntries, tickless_map]
  intro e he
  obtain ⟨a, ha, rfl⟩ := List.mem_map.1 he
  exact ⟨.text _ _, h a ha⟩

/-! ### Maps -/

theorem mem_insert {k : Value} {e : Value × Value} (h : e ∈ insert k v es) :
    (e.1 = k ∨ ∃ a ∈ es, e.1 = a.1) ∧ (e.2 = v ∨ ∃ a ∈ es, e.2 = a.2) := by
  induction es with
  | nil =>
    cases List.mem_singleton.1 h
    exact ⟨.inl rfl, .inl rfl⟩
  | cons a es ih =>
    rw [insert] at h
    split at h
    · rcases List.mem_cons.1 h with rfl | h
      · exact ⟨.inl rfl, .inl rfl⟩
      · exact ⟨.inr ⟨e, h, rfl⟩, .inr ⟨e, h, rfl⟩⟩
    · rcases List.mem_cons.1 h with rfl | h
      · exact ⟨.inr ⟨a, List.mem_cons_self, rfl⟩, .inl rfl⟩
      · exact ⟨.inr ⟨e, List.mem_cons_of_mem _ h, rfl⟩, .inr ⟨e, List.mem_cons_of_mem _ h, rfl⟩⟩
    · rcases List.mem_cons.1 h with rfl | h
      · exact ⟨.inr ⟨_, List.mem_cons_self, rfl⟩, .inr ⟨_, List.mem_cons_self, rfl⟩⟩
      · obtain ⟨hk, hv⟩ := ih h
        refine ⟨hk.imp_right ?_, hv.imp_right ?_⟩
        · rintro ⟨b, hb, heq⟩
          exact ⟨b, List.mem_cons_of_mem _ hb, heq⟩
        · rintro ⟨b, hb, heq⟩
          exact ⟨b, List.mem_cons_of_mem _ hb, heq⟩

theorem tickless_insert {k : Value} (hk : k.Tickless) (hv : v.Tickless)
    (h : ∀ e ∈ es, e.1.Tickless ∧ e.2.Tickless) : ∀ e ∈ insert k v es, e.1.Tickless ∧ e.2.Tickless := by
  intro e he
  obtain ⟨hkey, hvalue⟩ := mem_insert he
  constructor
  · rcases hkey with heq | ⟨a, ha, heq⟩
    · exact heq ▸ hk
    · exact heq ▸ (h a ha).1
  · rcases hvalue with heq | ⟨a, ha, heq⟩
    · exact heq ▸ hv
    · exact heq ▸ (h a ha).2

theorem tickless_mapOf (h : ∀ e ∈ es, e.1.Tickless ∧ e.2.Tickless) : (mapOf es).Tickless := by
  have hfold : ∀ {es ms : List (Value × Value)}, (∀ e ∈ es, e.1.Tickless ∧ e.2.Tickless) →
      (∀ e ∈ ms, e.1.Tickless ∧ e.2.Tickless) →
      ∀ e ∈ es.foldl (fun m e => insert e.1 e.2 m) ms, e.1.Tickless ∧ e.2.Tickless := by
    intro es
    induction es with
    | nil =>
      intro ms _ hms
      exact hms
    | cons a es ih =>
      intro ms hes hms
      obtain ⟨ha, hes⟩ := List.forall_mem_cons.1 hes
      exact ih hes (tickless_insert ha.1 ha.2 hms)
  rw [mapOf, tickless_map]
  exact hfold h fun e he => absurd he List.not_mem_nil

theorem tickless_lookup? {key : Value} (h : ∀ e ∈ es, e.2.Tickless) : ∀ v ∈ lookup? key es, v.Tickless := by
  induction es with
  | nil => simp [lookup?]
  | cons e es ih =>
    obtain ⟨he, hes⟩ := List.forall_mem_cons.1 h
    rw [lookup?]
    split
    · simpa using he
    · exact ih hes

/-! ### Items and attributes -/

theorem tickless_itemAt? {key : Value} (h : ∀ v ∈ vs, v.Tickless) : ∀ v ∈ itemAt? vs key, v.Tickless := by
  intro v hv
  obtain ⟨i, -, hi⟩ := Option.bind_eq_some_iff.1 hv
  exact h v (List.mem_of_getElem? hi)

theorem tickless_item? {key : Value} (h : v.Tickless) : ∀ x ∈ v.item? key, x.Tickless := by
  cases h with
  | map hk hv => exact tickless_lookup? hv
  | list h => exact tickless_itemAt? h
  | iterable h => exact tickless_itemAt? h
  | text s safe =>
    intro x hx
    obtain ⟨c, -, rfl⟩ := Option.map_eq_some_iff.1 hx
    exact .text _ _
  | _ => simp [item?]

theorem tickless_attr? {name : String} (h : v.Tickless) : ∀ x ∈ v.attr? name, x.Tickless := by
  cases h with
  | map hk hv => exact tickless_lookup? hv
  | _ => simp [attr?]

theorem gives_orUndefined {found : Option Value} (h : ∀ x ∈ found, x.Tickless) :
    Gives (v.orUndefined found) Tickless := by
  unfold orUndefined
  split
  · exact .ok (h _ rfl)
  · split
    · exact .error
    · exact .ok (.undefined false)

theorem gives_iterate (h : v.Tickless) : Gives v.iterate fun vs => ∀ v ∈ vs, v.Tickless := by
  cases h with
  | undefined silent =>
    cases silent with
    | false => exact .error
    | true => exact .ok (by simp)
  | none => exact .ok (by simp)
  | text s safe => exact .ok (by simp)
  | list h => exact .ok h
  | iterable h => exact .ok h
  | map hk hv => exact .ok (by simpa using fun a b hab => hk (a, b) hab)
  | _ => exact .error

theorem mem_sliceItems {α : Type} {xs : List α} {start stop : Option Int} {step : Int} {x : α}
    (h : x ∈ sliceItems xs start stop step) : x ∈ xs := by
  obtain ⟨i, -, hi⟩ := List.mem_filterMap.1 h
  rw [List.getElem?_toArray] at hi
  exact List.mem_of_getElem? hi

theorem gives_slice {start stop step : Value} (h : v.Tickless) : Gives (v.slice start stop step) Tickless := by
  unfold slice
  apply Gives.guard
  apply Gives.after
  intro low
  apply Gives.after
  intro high
  apply Gives.after
  intro by_
  apply Gives.guard
  cases h with
  | text s safe => exact .ok (.text _ _)
  | undefined silent => exact .ok (by simp)
  | none => exact .ok (by simp)
  | list h => exact .ok (.list fun v hv => h v (mem_sliceItems hv))
  | iterable h => exact .ok (.iterable fun v hv => h v (mem_sliceItems hv))
  | _ => exact .error

/-! ### Operators -/

theorem gives_fitting {op : String} {a b : Value} {n : Int} : Gives (fitting op a b n) Tickless := by
  unfold fitting
  split
  · exact .ok (.int n)
  · exact .error

theorem tickless_sequence? (h : v.Tickless) : ∀ vs ∈ v.sequence?, ∀ x ∈ vs, x.Tickless := by
  cases h with
  | list h => simpa [sequence?] using h
  | iterable h => simpa [sequence?] using h
  | _ => simp [sequence?]

theorem gives_add (hv : v.Tickless) (hw : w.Tickless) : Gives (add v w) Tickless := by
  unfold add
  split
  · next hx hy =>
    exact .ok (.iterable (List.forall_mem_append.2 ⟨tickless_sequence? hv _ hx, tickless_sequence? hw _ hy⟩))
  · split
    · exact .ok (.text _ _)
    · split
      · exact gives_fitting
      · exact .ok (.float _)
      · exact .error

theorem gives_sub : Gives (sub v w) Tickless := by
  unfold sub
  split
  · exact gives_fitting
  · exact .ok (.float _)
  · exact .error

theorem gives_repeatText {s : String} {n : Int} : Gives (repeatText s n) Tickless := by
  unfold repeatText
  split
  · exact .ok (.text _ _)
  · exact .error

theorem gives_repeatItems {n : Int} (h : ∀ v ∈ vs, v.Tickless) : Gives (repeatItems vs n) Tickless := by
  unfold repeatItems
  split
  · apply Gives.ok
    apply Tickless.iterable
    intro v hv
    obtain ⟨l, hl, hv⟩ := List.mem_flatten.1 hv
    rw [List.eq_of_mem_replicate hl] at hv
    exact h v hv
  · exact .error

theorem gives_mul (hv : v.Tickless) (hw : w.Tickless) : Gives (mul v w) Tickless := by
  unfold mul
  split
  · exact gives_repeatText
  · exact gives_repeatText
  · exact gives_repeatItems (tickless_list.1 hv)
  · exact gives_repeatItems (tickless_list.1 hw)
  · exact gives_repeatItems (tickless_iterable.1 hv)
  · exact gives_repeatItems (tickless_iterable.1 hw)
  · split
    · exact gives_fitting
    · exact .ok (.float _)
    · exact .error

theorem gives_div : Gives (div v w) Tickless := by
  unfold div
  split
  · exact .ok (.float _)
  · exact .error

theorem gives_floorDiv : Gives (floorDiv v w) Tickless := by
  unfold floorDiv
  split
  · split
    · exact .error
    · exact gives_fitting
  · exact .ok (.float _)
  · exact .error

theorem gives_rem : Gives (rem v w) Tickless := by
  unfold rem
  split
  · split
    · exact .error
    · exact gives_fitting
  · exact .ok (.float _)
  · exact .error

theorem gives_pow : Gives (pow v w) Tickless := by
  unfold pow
  split
  · split
    · exact .ok (.int _)
    · exact .error
  · exact .ok (.float _)
  · exact .error

theorem gives_negate : Gives (negate v) Tickless := by
  unfold negate
  split
  · exact .ok (.float _)
  · split
    · exact .ok (.int _)
    · exact .error
  · exact .error

theorem gives_binary {objects : Nat → List Char} {op : BinaryOp} (hv : v.Tickless) (hw : w.Tickless) :
    Gives (binary objects op v w) Tickless := by
  cases op with
  | add => exact gives_add hv hw
  | sub => exact gives_sub
  | mul => exact gives_mul hv hw
  | div => exact gives_div
  | floorDiv => exact gives_floorDiv
  | rem => exact gives_rem
  | pow => exact gives_pow
  | concat => exact .ok (.text _ _)
  | and => exact .ok hw
  | or => exact .ok hw

end Value

/-! ### Filters -/

/-- The function that counts loop bodies does not occur in the arguments. -/
structure Args.Tickless (a : Args) : Prop where
  positional : ∀ v ∈ a.positional, v.Tickless
  named : ∀ e ∈ a.named, e.2.Tickless

theorem Args.Tickless.get? {a : Args} (h : a.Tickless) {name : String} :
    ∀ v ∈ Entries.get? name a.named, v.Tickless :=
  fun _ hv => h.named _ (Entries.mem_of_get? hv)

namespace Filter

open Value

variable {s : Setting} {v : Value} {a : Args}

theorem gives_length : Gives (length v) Tickless := by
  unfold length
  split
  · exact .ok (.int _)
  · exact .error

theorem gives_default (hv : v.Tickless) (ha : a.Tickless) : Gives (default v a) Tickless := by
  have hother : ((a.positional.head?).getD (plainText "")).Tickless :=
    tickless_getD (fun w hw => ha.positional w (List.mem_of_head? hw)) (.text _ _)
  unfold default
  apply Gives.after
  intro _
  dsimp only
  split
  · exact .ok hother
  · apply Gives.after
    intro flag
    split
    · exact .ok hother
    · exact .ok hv

theorem gives_join : Gives (join s v a) Tickless := by
  unfold join
  apply Gives.after
  intro _
  apply Gives.after
  intro sep
  split
  · split
    · exact .error
    · exact .error
  · exact .ok (.text _ _)

theorem gives_first (hv : v.Tickless) : Gives (first v) Tickless := by
  cases hv with
  | text s safe =>
    apply Gives.ok
    apply tickless_getD _ (.undefined _)
    intro w hw
    obtain ⟨c, -, rfl⟩ := Option.map_eq_some_iff.1 hw
    exact .text _ _
  | list h => exact .ok (tickless_getD (fun w hw => h w (List.mem_of_head? hw)) (.undefined _))
  | iterable h => exact .ok (tickless_getD (fun w hw => h w (List.mem_of_head? hw)) (.undefined _))
  | map hk hv =>
    apply Gives.ok
    apply tickless_getD _ (.undefined _)
    intro w hw
    obtain ⟨e, he, rfl⟩ := Option.map_eq_some_iff.1 hw
    exact hk e (List.mem_of_head? he)
  | _ => exact .error

theorem gives_last (hv : v.Tickless) : Gives (last v) Tickless := by
  cases hv with
  | text s safe =>
    apply Gives.ok
    apply tickless_getD _ (.undefined _)
    intro w hw
    obtain ⟨c, -, rfl⟩ := Option.map_eq_some_iff.1 hw
    exact .text _ _
  | list h => exact .ok (tickless_getD (fun w hw => h w (List.mem_of_getLast? hw)) (.undefined _))
  | iterable h => exact .ok (tickless_getD (fun w hw => h w (List.mem_of_getLast? hw)) (.undefined _))
  | _ => exact .error

theorem gives_trim : Gives (trim s v a) Tickless := by
  unfold trim
  apply Gives.after
  intro _
  apply Gives.after
  intro cs
  split
  · exact .ok (.text _ _)
  · exact .ok (.text _ _)
  · apply Gives.after
    intro set
    exact .ok (.text _ _)

theorem gives_replace : Gives (replace s v a) Tickless := by
  unfold replace
  apply Gives.after
  intro cs
  split
  · apply Gives.after
    intro _
    apply Gives.after
    intro old
    apply Gives.after
    intro new
    exact .ok (.text _ _)
  · exact .error
  · exact .error

theorem gives_reverse (hv : v.Tickless) : Gives (reverse v) Tickless := by
  cases hv with
  | undefined silent => exact .ok (.undefined silent)
  | none => exact .ok .none
  | text s safe => exact .ok (.text _ _)
  | list h => exact .ok (.list fun w hw => h w (List.mem_reverse.1 hw))
  | iterable h => exact .ok (.iterable fun w hw => h w (List.mem_reverse.1 hw))
  | map hk hv =>
    apply Gives.ok
    apply Tickless.iterable
    intro w hw
    obtain ⟨e, he, rfl⟩ := List.mem_map.1 (List.mem_reverse.1 hw)
    exact hk e he
  | _ => exact .error

theorem tickless_escape (hv : v.Tickless) : (escape s v).Tickless := by
  unfold escape
  split
  · exact hv
  · exact .text _ _

theorem gives_asList (hv : v.Tickless) : Gives (asList v) fun vs => ∀ x ∈ vs, x.Tickless := by
  unfold asList
  split
  · next vs h => exact .ok ((gives_iterate hv).result vs h)
  · split
    · exact .error
    · exact .error

theorem gives_toList (hv : v.Tickless) : Gives (toList v) Tickless :=
  (gives_asList hv).bind fun _ hvs => .ok (.list hvs)

theorem gives_sort (hv : v.Tickless) : Gives (sort v a) Tickless := by
  unfold sort
  apply Gives.guard
  apply Gives.after
  intro _
  apply (gives_asList hv).bind
  intro vs hvs
  apply Gives.after
  intro caseSensitive
  apply Gives.after
  intro descending
  split
  · exact .ok (.list fun x hx => hvs x (List.mem_mergeSort.1 (List.mem_reverse.1 hx)))
  · exact .ok (.list fun x hx => hvs x (List.mem_mergeSort.1 hx))

theorem gives_toString (hv : v.Tickless) : Gives (toString s v) Tickless := by
  unfold toString
  split
  · exact .error
  · split
    · exact .ok hv
    · exact .ok (.text _ _)

theorem gives_toInt : Gives (toInt v) Tickless := by
  unfold toInt
  split
  all_goals try exact .ok (.int _)
  · exact .error
  · split
    · exact .ok (.int _)
    · split
      · exact .ok (.int _)
      · exact .error
  · exact .error

theorem gives_toFloat : Gives (toFloat v) Tickless := by
  unfold toFloat
  split
  all_goals try exact .ok (.float _)
  · exact .error
  · split
    · exact .ok (.float _)
    · exact .error
  · exact .error

theorem gives_items (hv : v.Tickless) : Gives (items v) Tickless := by
  cases hv with
  | map hk hv =>
    apply Gives.ok
    apply Tickless.list
    intro w hw
    obtain ⟨e, he, rfl⟩ := List.mem_map.1 hw
    simp [hk e he, hv e he]
  | undefined silent => cases silent <;> exact .error
  | _ => exact .error

theorem gives_alone {r : Except Error Value} (h : Gives r Tickless) : Gives (alone a r) Tickless :=
  .after fun _ => h

theorem gives_apply {name : String} (hv : v.Tickless) (ha : a.Tickless) : Gives (apply s name v a) Tickless := by
  have htext : ∀ {r : Except Error (List Char)} (f : List Char → Value), (∀ cs, (f cs).Tickless) →
      Gives (r >>= fun cs => pure (f cs)) Tickless :=
    fun f hf => .after fun cs => .ok (hf cs)
  unfold apply
  split
  · exact gives_alone (htext _ fun _ => .text _ _)
  · exact gives_alone (htext _ fun _ => .text _ _)
  · exact gives_alone gives_length
  · exact gives_alone gives_length
  · exact gives_default hv ha
  · exact gives_default hv ha
  · exact gives_join
  · exact gives_alone (gives_first hv)
  · exact gives_alone (gives_last hv)
  · exact gives_trim
  · exact gives_replace
  · exact gives_alone (gives_reverse hv)
  · exact gives_alone (.ok (tickless_escape hv))
  · exact gives_alone (.ok (tickless_escape hv))
  · exact gives_alone (htext _ fun _ => .text _ _)
  · exact gives_sort hv
  · exact gives_alone (gives_toList hv)
  · exact gives_alone (gives_toString hv)
  · exact gives_alone gives_toInt
  · exact gives_alone gives_toFloat
  · exact gives_alone (gives_items hv)
  · exact .error

end Filter

/-! ### Functions of the environment -/

section functions

open Value

variable {a : Args} {v : Value}

theorem gives_rangeOf : Gives (rangeOf a) Tickless := by
  unfold rangeOf
  apply Gives.guard
  apply Gives.after
  intro bounds
  apply Gives.guard
  dsimp only
  split
  · exact .error
  · apply Gives.ok
    apply Tickless.iterable
    intro w hw
    obtain ⟨i, -, rfl⟩ := List.mem_map.1 hw
    exact .int _

theorem gives_namespaceOf (ha : a.Tickless) : Gives (namespaceOf a) fun es => ∀ e ∈ es, e.2.Tickless := by
  unfold namespaceOf
  dsimp only
  split
  · exact .ok ha.named
  · next es h _ =>
    have hmap : (map es).Tickless := ha.positional _ (h ▸ List.mem_singleton.2 rfl)
    apply Gives.ok
    intro e he
    obtain ⟨x, hx, hxe⟩ := List.mem_filterMap.1 (Entries.mem_ofList he)
    have hx := (tickless_map.1 hmap x hx).2
    split at hxe
    · cases hxe
      exact hx
    · cases hxe
  · exact .error
  · exact .error

theorem gives_namedFrom (h : v.Tickless) : Gives (namedFrom v) fun es => ∀ e ∈ es, e.2.Tickless := by
  cases h with
  | map hk hv =>
    apply Gives.ok
    intro e he
    obtain ⟨x, hx, hxe⟩ := List.mem_filterMap.1 he
    have hx := hv x hx
    split at hxe
    · cases hxe
      exact hx
    · cases hxe
  | _ => exact .error

theorem gives_placeholder {w : World} {objects : Nat → List Char} {name : String} :
    Gives (placeholder w objects name v) Tickless := by
  unfold placeholder
  split
  · exact .ok (.text _ _)
  · split
    · exact .ok (.text _ _)
    · split
      · exact .ok (.text _ _)
      · exact .error

theorem gives_bindParameters {c : Closure} (ha : a.Tickless) :
    Gives (bindParameters c a) fun vs => ∀ v ∈ vs, v.Tickless := by
  unfold bindParameters
  dsimp only
  apply Gives.guard
  apply Gives.bind
  · apply Gives.mapM (q := Tickless)
    intro x hx
    unfold parameterValue
    split
    · exact .error
    · next h _ => exact .ok (ha.positional _ (List.mem_of_getElem? h))
    · next h => exact .ok (ha.get? _ h)
    · exact .ok (.undefined _)
  · intro vs hvs
    split
    · exact .error
    · exact .ok hvs

end functions

end Template

end SecureLayout
