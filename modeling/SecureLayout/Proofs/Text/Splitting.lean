import SecureLayout.Text.Blank

/-!
Texts split at a separator. Main statements: the pieces joined again are the text, splitting at a separator splits both
sides, and pieces without the separator come back from their joined text.
-/

namespace SecureLayout.Text

theorem splitOnChar_join (sep : Char) (s : List Char) : ∃ p ps, splitOnChar sep s = p :: ps ∧
    s = p ++ ps.flatMap (sep :: ·) := by
  induction s with
  | nil => exact ⟨[], [], rfl, rfl⟩
  | cons c s ih =>
    obtain ⟨p, ps, hsplit, hs⟩ := ih
    by_cases hc : c = sep
    · refine ⟨[], p :: ps, by rw [splitOnChar, if_pos hc, hsplit], ?_⟩
      rw [hc, List.nil_append, List.flatMap_cons, List.cons_append, ← hs]
    · refine ⟨c :: p, ps, by rw [splitOnChar, if_neg hc, hsplit], ?_⟩
      rw [List.cons_append, ← hs]

theorem splitOnChar_append_free {sep : Char} {b : List Char} (hb : sep ∉ b) (a : List Char) :
    ∃ ps last, splitOnChar sep a = ps ++ [last] ∧ splitOnChar sep (a ++ b) = ps ++ [last ++ b] := by
  induction a with
  | nil =>
    refine ⟨[], [], rfl, ?_⟩
    induction b with
    | nil => rfl
    | cons c b ih =>
      rw [List.mem_cons, not_or] at hb
      obtain ⟨hc, hb⟩ := hb
      rw [List.nil_append] at ih ⊢
      rw [splitOnChar, if_neg (Ne.symm hc), ih hb]
      rfl
  | cons c a ih =>
    obtain ⟨ps, last, ha, hab⟩ := ih
    by_cases hc : c = sep
    · refine ⟨[] :: ps, last, ?_, ?_⟩
      · rw [splitOnChar, if_pos hc, ha]
        rfl
      · rw [List.cons_append, splitOnChar, if_pos hc, hab]
        rfl
    · cases ps with
      | nil =>
        refine ⟨[], c :: last, ?_, ?_⟩
        · rw [splitOnChar, if_neg hc, ha]
          rfl
        · rw [List.cons_append, splitOnChar, if_neg hc, hab]
          rfl
      | cons x ps =>
        refine ⟨(c :: x) :: ps, last, ?_, ?_⟩
        · rw [splitOnChar, if_neg hc, ha]
          rfl
        · rw [List.cons_append, splitOnChar, if_neg hc, hab]
          rfl

theorem splitOnChar_append_sep (sep : Char) (a b : List Char) :
    splitOnChar sep (a ++ sep :: b) = splitOnChar sep a ++ splitOnChar sep b := by
  induction a with
  | nil =>
    change splitOnChar sep (sep :: b) = [] :: splitOnChar sep b
    rw [splitOnChar, if_pos rfl]
  | cons c a ih =>
    by_cases hc : c = sep
    · rw [List.cons_append, splitOnChar, if_pos hc, ih, splitOnChar, if_pos hc]
      rfl
    · rw [List.cons_append, splitOnChar, if_neg hc, ih, splitOnChar, if_neg hc]
      cases hs : splitOnChar sep a with
      | nil => exact absurd hs (splitOnChar_ne_nil sep a)
      | cons x xs => rfl

theorem splitOnChar_of_not_mem {sep : Char} {s : List Char} (h : sep ∉ s) : splitOnChar sep s = [s] := by
  obtain ⟨ps, last, hnil, hs⟩ := splitOnChar_append_free h []
  obtain ⟨rfl, rfl⟩ : ps = [] ∧ [] = last := by
    cases ps with
    | nil => simpa [splitOnChar] using hnil
    | cons p ps => simp [splitOnChar] at hnil
  exact hs

theorem splitOnChar_flatMap {sep : Char} {p : List Char} {ps : List (List Char)} (h : ∀ q ∈ p :: ps, sep ∉ q) :
    splitOnChar sep (p ++ ps.flatMap (sep :: ·)) = p :: ps := by
  induction ps generalizing p with
  | nil =>
    rw [List.flatMap_nil, List.append_nil]
    exact splitOnChar_of_not_mem (h p List.mem_cons_self)
  | cons q ps ih =>
    obtain ⟨hp, hps⟩ := List.forall_mem_cons.1 h
    rw [List.flatMap_cons, List.cons_append, splitOnChar_append_sep, splitOnChar_of_not_mem hp, ih hps]
    rfl

/-- The first piece is what stands before the first separator. -/
theorem head?_splitOnChar (sep : Char) (s : List Char) :
    (splitOnChar sep s).head? = some (s.takeWhile (· != sep)) := by
  induction s with
  | nil => rfl
  | cons c s ih =>
    by_cases hc : c = sep
    · rw [splitOnChar, if_pos hc, List.takeWhile_cons_of_neg (by simp [hc])]
      rfl
    · rw [splitOnChar, if_neg hc, List.takeWhile_cons_of_pos (by simp [hc])]
      cases hs : splitOnChar sep s with
      | nil => exact absurd hs (splitOnChar_ne_nil sep s)
      | cons p ps =>
        rw [hs] at ih
        exact congrArg (fun o => o.map (c :: ·)) ih

end SecureLayout.Text
