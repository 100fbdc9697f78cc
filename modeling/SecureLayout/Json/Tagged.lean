import SecureLayout.Json.Record

/-!
Reading messages that name their kind. A message is an object with a member `type`, wherever it
stands, or a list that begins with the kind; the kind is checked as soon as it is read.
-/

namespace SecureLayout.Json.Reader

/-- Kinds of a family of messages. -/
structure Family where
  name : String
  kinds : List String

/-- The kind that stands next. -/
def kind (f : Family) : Reader String := do
  match ← next with
  | some '"' => do
    skip
    let name ← text
    if f.kinds.contains name then pure name
    else mismatchHere (.unknownVariant name f.kinds)
  | some '[' => mismatchHere (.wrongType .list "variant identifier")
  | some '\x7b' => mismatchHere (.wrongType .object "variant identifier")
  | _ => do
    match ← scalar with
    | some r => mismatchHere (.wrongType r.found "variant identifier")
    | none => faultNext .valueMissing

/-- Members other than `type`, in order, and the kind once it was read. -/
def taggedMembers (f : Family) (room : Nat) :
    Nat → Bool → Option String → Reader (Option String × List (String × Raw))
  | 0, _, _ => faultHere .endInObject
  | fuel + 1, first, tag => do
    if ← hasMember first then
      let k ← key
      if k = "type" then
        if tag.isSome then
          settleObject
          mismatchHere (.duplicateField "type")
        else
          colon
          let t ← kind f
          taggedMembers f room fuel false (some t)
      else
        colon
        let r ← anyValue room
        let (t, ms) ← taggedMembers f room fuel false tag
        pure (t, (k, r) :: ms)
    else pure (tag, [])

/-- A message: its kind and its other content, an object or a list. -/
def tagged (f : Family) : Reader (String × Raw) := do
  match ← next with
  | some '[' => do
    skip
    if ← hasItem true then
      let tag ← kind f
      let c ← get
      let rs ← items (fuelFor c) (greatestDepth - 1) false
      skip
      pure (tag, .list rs)
    else
      settleList
      mismatchHere (.missingField "type")
  | some '\x7b' => do
    skip
    let c ← get
    let (tag, ms) ← taggedMembers f (greatestDepth - 1) (fuelFor c) true none
    skip
    match tag with
    | some tag => pure (tag, .object ms)
    | none => mismatchHere (.missingField "type")
  | _ => do
    match ← scalar with
    | some r => mismatchHere (.wrongType r.found ("internally tagged enum " ++ f.name))
    | none => faultNext .valueMissing

/-- Runs on a whole text; what comes after the message is looked at last. -/
def decode {α : Type} (f : Family) (content : String → Raw → Decoded α) (s : String) :
    Except Error α :=
  let whole : Reader α := do
    let (tag, raw) ← tagged f
    match content tag raw with
    | .ok a => pure a
    | .error m => fun _ => .error (.mismatch m none)
  run whole s

end SecureLayout.Json.Reader
