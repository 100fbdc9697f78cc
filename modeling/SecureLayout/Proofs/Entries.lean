import Mathlib.Data.List.Forall2
import Mathlib.Data.List.Induction
import Mathlib.Data.String.Basic
import SecureLayout.Entries

/-!
Finite maps are determined by what is read from them. Main statements: `put` and `remove` keep the keys
increasing, two maps with increasing keys that answer every key alike are equal, and of two bindings that are
put the later wins where the keys are the same, while otherwise their order does not matter. Two maps that are
related key by key stay related under the operations.
-/

namespace SecureLayout.Entries

variable {α β : Type}

theorem mem_of_get? {k : String} {v : α} {m : Entries α} (h : get? k m = some v) : (k, v) ∈ m := by
  induction m with
  | nil => cases h
  | cons e r ih =>
    simp only [get?] at h
    split at h
    · next hk =>
      cases h
      simp [hk]
    · exact List.mem_cons_of_mem _ (ih h)

theorem get?_eq_some_iff {m : Entries α} (hm : Sorted m) (k : String) (v : α) :
    get? k m = some v ↔ (k, v) ∈ m := by
  refine ⟨mem_of_get?, ?_⟩
  induction m with
  | nil => simp
  | cons e r ih =>
    obtain ⟨hlt, hr⟩ := List.pairwise_cons.1 hm
    intro h
    rcases List.mem_cons.1 h with rfl | h
    · simp [get?]
    · have hne : k ≠ e.1 := ne_of_gt (hlt _ h)
      simp only [get?, if_neg hne]
      exact ih hr h

theorem mem_keys {m : Entries α} (hm : Sorted m) {k : String} : k ∈ keys m ↔ (get? k m).isSome = true := by
  rw [keys, List.mem_map, Option.isSome_iff_exists]
  constructor
  · rintro ⟨e, he, rfl⟩
    exact ⟨e.2, (get?_eq_some_iff hm e.1 e.2).2 he⟩
  · rintro ⟨v, hv⟩
    exact ⟨(k, v), mem_of_get? hv, rfl⟩

theorem pairwise_keys {m : Entries α} (hm : Sorted m) : (keys m).Pairwise (· < ·) :=
  List.pairwise_map.2 hm

theorem mem_put {k : String} {v : α} {m : Entries α} {e : String × α} (h : e ∈ put k v m) :
    e = (k, v) ∨ e ∈ m := by
  induction m with
  | nil => simpa [put] using h
  | cons a r ih =>
    unfold put at h
    split_ifs at h
    · simpa using h
    · rcases List.mem_cons.1 h with h | h
      · exact .inl h
      · exact .inr (List.mem_cons_of_mem _ h)
    · rcases List.mem_cons.1 h with rfl | h
      · exact .inr (List.mem_cons_self ..)
      · exact (ih h).imp_right (List.mem_cons_of_mem _)

theorem mem_ofList {es : List (String × α)} {e : String × α} (h : e ∈ ofList es) :
    e ∈ es := by
  have hfold : ∀ {es : List (String × α)} {m : Entries α}, e ∈ es.foldl (fun m e => put e.1 e.2 m) m →
      e ∈ m ∨ e ∈ es := by
    intro es
    induction es with
    | nil =>
      intro m h
      exact .inl h
    | cons a es ih =>
      intro m h
      rcases ih h with h | h
      · rcases mem_put h with rfl | h
        · exact .inr List.mem_cons_self
        · exact .inl h
      · exact .inr (List.mem_cons_of_mem _ h)
  rcases hfold h with h | h
  · exact absurd h List.not_mem_nil
  · exact h

theorem get?_ofList_of_mem {es : List (String × α)} (hkeys : (es.map Prod.fst).Nodup) {e : String × α} (he : e ∈ es) :
    get? e.1 (ofList es) = some e.2 := by
  induction es using List.reverseRecOn with
  | nil => cases he
  | append_singleton es a ih =>
    have hput : ofList (es ++ [a]) = put a.1 a.2 (ofList es) := by rw [ofList, List.foldl_append]; rfl
    rw [List.map_append, List.nodup_append] at hkeys
    obtain ⟨hes, -, hdisjoint⟩ := hkeys
    rw [hput, get?_put]
    split
    · next hk =>
      rcases List.mem_append.1 he with he | he
      · exact absurd hk (hdisjoint _ (List.mem_map_of_mem he) _ (by simp))
      · rw [List.mem_singleton.1 he]
    · next hk =>
      rcases List.mem_append.1 he with he | he
      · exact ih hes he
      · exact absurd (congrArg Prod.fst (List.mem_singleton.1 he)) hk

theorem sorted_put {m : Entries α} (hm : Sorted m) (k : String) (v : α) : Sorted (put k v m) := by
  induction m with
  | nil => exact List.pairwise_singleton _ _
  | cons a r ih =>
    obtain ⟨hlt, hr⟩ := List.pairwise_cons.1 hm
    unfold put
    split_ifs with h1 h2
    · refine List.pairwise_cons.2 ⟨fun x hx => ?_, hm⟩
      rcases List.mem_cons.1 hx with rfl | hx
      · exact h1
      · exact lt_trans h1 (hlt x hx)
    · exact List.pairwise_cons.2 ⟨fun x hx => h2 ▸ hlt x hx, hr⟩
    · refine List.pairwise_cons.2 ⟨fun x hx => ?_, ih hr⟩
      rcases mem_put hx with rfl | hx
      · exact lt_of_le_of_ne (not_lt.1 h1) (Ne.symm h2)
      · exact hlt x hx

theorem sorted_ofList (es : List (String × α)) : Sorted (ofList es) := by
  have hfold : ∀ (es : List (String × α)) {m : Entries α}, Sorted m →
      Sorted (es.foldl (fun m e => put e.1 e.2 m) m) := by
    intro es
    induction es with
    | nil => exact fun hm => hm
    | cons e es ih => exact fun hm => ih (sorted_put hm e.1 e.2)
  exact hfold es List.Pairwise.nil

/-- A binding behind all others is put at the end. -/
theorem put_of_forall_lt {m : Entries α} {k : String} (h : ∀ e ∈ m, e.1 < k) (v : α) :
    put k v m = m ++ [(k, v)] := by
  induction m with
  | nil => rfl
  | cons a r ih =>
    obtain ⟨ha, hr⟩ := List.forall_mem_cons.1 h
    rw [put, if_neg (not_lt.2 ha.le), if_neg (ne_of_gt ha), ih hr, List.cons_append]

theorem ofList_of_sorted {m : Entries α} (h : Sorted m) : ofList m = m := by
  have hfold : ∀ (r m : Entries α), Sorted (m ++ r) →
      r.foldl (fun m e => put e.1 e.2 m) m = m ++ r := by
    intro r
    induction r with
    | nil => exact fun m _ => (List.append_nil m).symm
    | cons e r ih =>
      intro m hm
      have hlt : ∀ a ∈ m, a.1 < e.1 := fun a ha =>
        (List.pairwise_append.1 hm).2.2 a ha e List.mem_cons_self
      have hassoc : m ++ [(e.1, e.2)] ++ r = m ++ e :: r := by simp
      rw [List.foldl_cons, put_of_forall_lt hlt, ih _ (hassoc ▸ hm), hassoc]
  exact hfold m [] h

theorem sorted_remove {m : Entries α} (hm : Sorted m) (k : String) : Sorted (remove k m) :=
  hm.filter _

theorem put_put (k : String) (v w : α) (m : Entries α) : put k w (put k v m) = put k w m := by
  induction m with
  | nil => simp [put]
  | cons e r ih =>
    obtain ⟨a, x⟩ := e
    rw [put, put]
    split_ifs with hlt heq
    · simp [put]
    · simp [put]
    · rw [put, if_neg hlt, if_neg heq, ih]

/-- Bindings of different keys may be put in either order, also where the keys do not increase. -/
theorem put_comm {k l : String} (h : k ≠ l) (v w : α) (m : Entries α) :
    put l w (put k v m) = put k v (put l w m) := by
  wlog hlt : k < l generalizing k l v w
  · exact (this h.symm w v ((lt_or_gt_of_ne h).resolve_left hlt)).symm
  have hge : ¬ l < k := not_lt_of_gt hlt
  induction m with
  | nil => simp [put, hlt, hge, h.symm]
  | cons e r ih =>
    obtain ⟨a, x⟩ := e
    rcases lt_trichotomy k a with hk | rfl | hk
    · -- `k` goes in front of `a`, and of `l` wherever that goes
      have hfront : put k v ((a, x) :: r) = (k, v) :: (a, x) :: r := if_pos hk
      rw [hfront, put, if_neg hge, if_neg h.symm]
      rcases lt_trichotomy l a with hl | rfl | hl
      · simp [put, hl, hlt]
      · simp [put, hlt]
      · simp [put, not_lt_of_gt hl, ne_of_gt hl, hk]
    · simp [put, hge, h.symm]
    · have hl : a < l := hk.trans hlt
      simp [put, not_lt_of_gt hk, ne_of_gt hk, not_lt_of_gt hl, ne_of_gt hl, ih]

/-- Maps that answer alike are equal. -/
theorem ext_get? {m n : Entries α} (hm : Sorted m) (hn : Sorted n)
    (h : ∀ k, get? k m = get? k n) : m = n := by
  have hmem : ∀ e, e ∈ m ↔ e ∈ n := by
    intro e
    rw [← get?_eq_some_iff hm e.1 e.2, ← get?_eq_some_iff hn e.1 e.2, h]
  have nodup {m : Entries α} (hm : Sorted m) : m.Nodup :=
    List.Pairwise.imp (fun hab he => absurd (he ▸ hab) (lt_irrefl _)) hm
  have hperm := (List.perm_ext_iff_of_nodup (nodup hm) (nodup hn)).2 hmem
  exact hperm.eq_of_pairwise (fun a b _ _ hab hba => absurd (lt_trans hab hba) (lt_irrefl _)) hm hn

/-! ### Two maps, key by key -/

section Related

variable {R : α → β → Prop}

theorem forall₂_put {es : Entries α} {ms : Entries β} {x : α} {y : β} (k : String)
    (hxy : R x y) (h : List.Forall₂ (fun e m => e.1 = m.1 ∧ R e.2 m.2) es ms) :
    List.Forall₂ (fun e m => e.1 = m.1 ∧ R e.2 m.2) (put k x es) (put k y ms) := by
  induction h with
  | nil => exact .cons ⟨rfl, hxy⟩ .nil
  | @cons e m es ms h hrest ih =>
    obtain ⟨a, x'⟩ := e
    obtain ⟨a', y'⟩ := m
    obtain ⟨ha, hxy'⟩ := h
    obtain rfl : a = a' := ha
    unfold put
    split_ifs
    · exact .cons ⟨rfl, hxy⟩ (.cons ⟨rfl, hxy'⟩ hrest)
    · exact .cons ⟨rfl, hxy⟩ hrest
    · exact .cons ⟨rfl, hxy'⟩ ih

theorem forall₂_ofList {es : List (String × α)} {ms : List (String × β)}
    (h : List.Forall₂ (fun e m => e.1 = m.1 ∧ R e.2 m.2) es ms) :
    List.Forall₂ (fun e m => e.1 = m.1 ∧ R e.2 m.2) (ofList es) (ofList ms) := by
  have hfold : ∀ {es' : Entries α} {ms' : Entries β}, List.Forall₂ (fun e m => e.1 = m.1 ∧ R e.2 m.2) es' ms' →
      List.Forall₂ (fun e m => e.1 = m.1 ∧ R e.2 m.2) (es.foldl (fun m e => put e.1 e.2 m) es')
        (ms.foldl (fun m e => put e.1 e.2 m) ms') := by
    induction h with
    | nil => exact fun h => h
    | @cons e m es ms h hrest ih =>
      intro es' ms' hacc
      rw [List.foldl_cons, List.foldl_cons, h.1]
      exact ih (forall₂_put m.1 h.2 hacc)
  exact hfold .nil

theorem forall₂_get? {es : Entries α} {ms : Entries β} (k : String)
    (h : List.Forall₂ (fun e m => e.1 = m.1 ∧ R e.2 m.2) es ms) : Option.Rel R (get? k es) (get? k ms) := by
  induction h with
  | nil => exact .none
  | @cons e m es ms h hrest ih =>
    obtain ⟨a, x⟩ := e
    obtain ⟨b, y⟩ := m
    obtain ⟨hab, hxy⟩ := h
    obtain rfl : a = b := hab
    unfold get?
    split_ifs
    · exact .some hxy
    · exact ih

theorem forall₂_remove {es : Entries α} {ms : Entries β} (k : String)
    (h : List.Forall₂ (fun e m => e.1 = m.1 ∧ R e.2 m.2) es ms) :
    List.Forall₂ (fun e m => e.1 = m.1 ∧ R e.2 m.2) (remove k es) (remove k ms) :=
  List.rel_filter (fun e m h => by simp only [h.1]) h

theorem forall₂_keys {es : Entries α} {ms : Entries β} (h : List.Forall₂ (fun e m => e.1 = m.1 ∧ R e.2 m.2) es ms) :
    keys es = keys ms := by
  rw [keys, keys, ← List.forall₂_eq_eq_eq, List.forall₂_map_left_iff, List.forall₂_map_right_iff]
  exact h.imp fun e m h => h.1

end Related

end SecureLayout.Entries
