import SecureLayout.Text.Blank

/-!
Replacing every occurrence of one text in another, from left to right, none inside another.
-/

namespace SecureLayout.Text

/-- Replaces after skipping `skip` characters that an occurrence took. -/
def replaceFrom (old new : List Char) : Nat → List Char → List Char
  | _, [] => []
  | skip + 1, _ :: s => replaceFrom old new skip s
  | 0, c :: s =>
    if (stripStart old (c :: s)).isSome then new ++ replaceFrom old new (old.length - 1) s
    else c :: replaceFrom old new 0 s

/-- The empty text occurs before every character and at the end. -/
def replaceAll (old new s : List Char) : List Char :=
  match old with
  | [] => s.flatMap (fun c => new ++ [c]) ++ new
  | old => replaceFrom old new 0 s

@[simp] theorem replaceFrom_nil (old new : List Char) (k : Nat) : replaceFrom old new k [] = [] := by
  cases k <;> rfl

end SecureLayout.Text
