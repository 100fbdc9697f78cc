import SecureLayout.Failure
import SecureLayout.Text.Blank

/-!
What a sandboxed frame must and must not be granted: scripts run, and the origin is not shared.
-/

namespace SecureLayout.Sandbox

/-- Words of a text with blanks between them; `word` is the one being read, reversed. -/
def wordsFrom (word : List Char) : List Char → List (List Char)
  | [] => if word.isEmpty then [] else [word.reverse]
  | c :: r =>
    if Text.isBlank c then
      if word.isEmpty then wordsFrom [] r else word.reverse :: wordsFrom [] r
    else wordsFrom (c :: word) r

/-- The grants that a `sandbox` attribute lists. -/
def grants (attributes : String) : List String :=
  (wordsFrom [] attributes.toList).map String.ofList

/-- The attribute of the frames that are made here. -/
def frameAttributes : String := "allow-scripts"

def validateAttributes (attributes : String) : Result Unit :=
  let gs := grants attributes
  if gs.contains "allow-same-origin" then
    .error (.transport "sandbox must not grant allow-same-origin")
  else if !gs.contains "allow-scripts" then .error (.transport "sandbox must grant allow-scripts")
  else .ok ()

theorem validateAttributes_ok_iff (attributes : String) :
    validateAttributes attributes = .ok () ↔
      "allow-same-origin" ∉ grants attributes ∧ "allow-scripts" ∈ grants attributes := by
  unfold validateAttributes
  by_cases h : (grants attributes).contains "allow-same-origin" <;>
    by_cases h' : (grants attributes).contains "allow-scripts" <;> simp_all

end SecureLayout.Sandbox
