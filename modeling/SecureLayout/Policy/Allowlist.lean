import SecureLayout.Failure
import SecureLayout.Text.Blank

/-!
Lists of what a layout may name. An empty list of components allows all of them, an empty list of
roots none.
-/

namespace SecureLayout.Policy

/-- Component names that are allowed; every name if there is no list. -/
structure ComponentAllowlist where
  names : Option (List String)
  deriving DecidableEq, Repr

namespace ComponentAllowlist

def allowAll : ComponentAllowlist := ⟨none⟩

/-- Blanks around a name do not count, and a name of blanks alone is refused. -/
def trimmed (name : String) : String :=
  String.ofList (Text.trim name.toList)

def compile (names : List String) : Result ComponentAllowlist :=
  if names.isEmpty then .ok allowAll
  else
    let trimmedNames := names.map trimmed
    if trimmedNames.contains "" then
      .error (.badRequest "allowed_components entry must not be blank")
    else .ok ⟨some trimmedNames⟩

def isWildcard (l : ComponentAllowlist) : Bool :=
  l.names.isNone

def isAllowed (l : ComponentAllowlist) (name : String) : Bool :=
  match l.names with
  | none => true
  | some names => names.contains name

end ComponentAllowlist

/-- First segments of binding paths that are allowed, each once, in the order they were given. -/
structure RootAllowlist where
  roots : List String
  deriving DecidableEq, Repr

namespace RootAllowlist

/-- Of a repeated root the first stays. -/
def compile (roots : List String) : RootAllowlist :=
  ⟨roots.foldl (fun kept r => if kept.contains r then kept else kept ++ [r]) []⟩

def contains (l : RootAllowlist) (root : String) : Bool :=
  l.roots.contains root

theorem contains_compile {roots : List String} {r : String} : (compile roots).contains r = true ↔ r ∈ roots := by
  have hfold : ∀ (rs kept : List String),
      r ∈ rs.foldl (fun kept r => if kept.contains r then kept else kept ++ [r]) kept ↔ r ∈ kept ∨ r ∈ rs := by
    intro rs
    induction rs with
    | nil => simp
    | cons a rs ih =>
      intro kept
      rw [List.foldl_cons, ih, List.mem_cons]
      split
      · next h =>
        have hmem : a ∈ kept := List.contains_iff_mem.1 h
        constructor
        · exact Or.imp_right .inr
        · rintro (hkept | rfl | hrs)
          · exact .inl hkept
          · exact .inl hmem
          · exact .inr hrs
      · rw [List.mem_append, List.mem_singleton, or_assoc]
  unfold contains compile
  rw [List.contains_iff_mem, hfold]
  simp

end RootAllowlist

end SecureLayout.Policy
