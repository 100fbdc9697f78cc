import SecureLayout.Json.Decode

/-!
Reading a record of free values as it stands in a text: an object with some of the names, each at most
once, or a list of values in the order of the names. A complaint points at the place it is about.
-/

namespace SecureLayout.Json.Reader

/-- White space and a closing bracket after a list was refused: the complaint points behind them. -/
def settleList : Reader Unit := do
  match ← next with
  | some ']' => skip
  | _ => pure ()

/-- The same for the brace of an object. -/
def settleObject : Reader Unit := do
  match ← next with
  | some '\x7d' => skip
  | _ => pure ()

/-- The end of a list whose items have all been read. -/
def endOfList : Reader Unit := do
  match ← next with
  | some ']' => skip
  | some ',' => do
    skip
    match ← next with
    | some ']' => faultNext .trailingComma
    | _ => faultNext .trailingCharacters
  | some _ => faultNext .trailingCharacters
  | none => faultNext .endInList

/-- Values for the names in their order; a list may be shorter. -/
def recordItems (room : Nat) : List String → Bool → Reader (List (String × Raw))
  | [], _ => pure []
  | n :: ns, first => do
    if ← hasItem first then
      let r ← anyValue room
      return (n, r) :: (← recordItems room ns false)
    else pure []

/-- Members with the given names, none of which may have been `seen`. -/
def recordMembers (names : List String) (room : Nat) :
    Nat → Bool → List String → Reader (List (String × Raw))
  | 0, _, _ => faultHere .endInObject
  | fuel + 1, first, seen => do
    if ← hasMember first then
      let k ← key
      if !names.contains k then
        settleObject
        mismatchHere (.unknownField k names)
      else if seen.contains k then
        settleObject
        mismatchHere (.duplicateField k)
      else
        colon
        let r ← anyValue room
        return (k, r) :: (← recordMembers names room fuel false (k :: seen))
    else pure []

/-- A record with these names; in complaints it is called by its title. -/
def openRecord (title : String) (names : List String) : Reader (List (String × Raw)) := do
  let room := greatestDepth - 1
  match ← next with
  | some '[' => do
    skip
    let rs ← recordItems room names true
    endOfList
    return rs
  | some '\x7b' => do
    skip
    let c ← get
    let rs ← recordMembers names room (fuelFor c) true []
    skip
    return rs
  | _ => do
    match ← scalar with
    | some r => mismatchHere (.wrongType r.found title)
    | none => faultNext .valueMissing

end SecureLayout.Json.Reader
