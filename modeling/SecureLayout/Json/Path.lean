import SecureLayout.Failure
import SecureLayout.Json.Value
import SecureLayout.Text.Blank
import SecureLayout.Text.Quoted

/-!
Dotted paths into JSON values. Main statements: what was set at a path is read there, and a path with an
empty segment is refused.
-/

namespace SecureLayout.Json.Value

/-- The value at the end of a path of object keys. -/
def getAt : List String → Value → Option Value
  | [], v => some v
  | k :: ks, v => (v.member? k).bind (getAt ks)

/-- Puts a value at the end of a path; whatever on the way is no object becomes one. -/
def setAt : List String → Value → Value → Value
  | [], new, _ => new
  | k :: ks, new, v =>
    .object (Entries.put k (setAt ks new ((v.member? k).getD (.object []))) v.members)

theorem getAt_setAt (ks : List String) (new v : Value) : getAt ks (setAt ks new v) = some new := by
  induction ks generalizing v with
  | nil => rfl
  | cons k ks ih => simp [setAt, getAt, member?, Entries.get?_put, ih]

/-- Segments of a dotted path. -/
def pathSegments (path : String) : List String :=
  (Text.splitOnChar '.' path.toList).map String.ofList

/-- Sets a dotted path whose segments must not be empty. -/
def setPath (v : Value) (path : String) (new : Value) : Result Value :=
  let ks := pathSegments path
  if ks.contains "" then .error (.badRequest ("invalid context path: " ++ Text.quoted path))
  else .ok (setAt ks new v)

theorem setPath_eq_ok_iff (v new : Value) (path : String) :
    (∃ w, v.setPath path new = .ok w) ↔ "" ∉ pathSegments path := by
  unfold setPath
  by_cases h : (pathSegments path).contains "" <;> simp_all

end SecureLayout.Json.Value
