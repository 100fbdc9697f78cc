import SecureLayout.Yaml.Token

/-!
Documents of a YAML text as trees. A text holds one document; an alias stands for the node that its
anchor was last put at.
-/

namespace SecureLayout.Yaml

inductive Node where
  /-- A scalar, and whether it is written plainly. -/
  | scalar (text : String) (plain : Bool)
  | sequence (items : List Node)
  | mapping (entries : List (Node × Node))
  deriving Repr, Inhabited

namespace Node

/-- What stands where nothing is written. -/
def empty : Node := scalar "" true

end Node

/-- What is left to read, the anchors met so far and the tag handles that may be used. -/
structure NodeReader where
  rest : List Token
  anchors : List (String × Node) := []
  handles : List String := ["!", "!!", ""]

abbrev Reading (α : Type) := StateT NodeReader Option α

namespace Reading

def peek : Reading (Option Token) :=
  fun s => some (s.rest.head?, s)

def skip : Reading Unit :=
  fun s => some ((), { s with rest := s.rest.drop 1 })

def fail {α : Type} : Reading α := fun _ => none

/-- Skips the token if it comes next. -/
def skipIf (t : Token) : Reading Bool := do
  if (← peek) == some t then
    skip
    return true
  else return false

/-- Whether one of the tokens comes next. -/
def atAny (ts : List Token) : Reading Bool := do
  return match ← peek with
    | some t => ts.contains t
    | none => false

/-- Anchor and tag of a node, in either order. -/
def properties : Nat → Option String → Bool → Reading (Option String × Bool)
  | 0, anchor, tagged => return (anchor, tagged)
  | fuel + 1, anchor, tagged => do
    match ← peek with
    | some (.anchor n) =>
      if anchor.isSome then return (anchor, tagged)
      skip
      properties fuel (some n) tagged
    | some (.tag h) =>
      if tagged then return (anchor, tagged)
      if !(← get).handles.contains h then fail
      skip
      properties fuel anchor true
    | _ => return (anchor, tagged)

/-- Items up to a closing token, with commas between them. -/
def flowItems {α : Type} (close : Token) (item : Reading α) : Nat → Bool → Reading (List α)
  | 0, _ => fail
  | fuel + 1, first => do
    if ← skipIf close then return []
    if !first then
      if !(← skipIf .flowEntry) then fail
      if ← skipIf close then return []
    let x ← item
    return x :: (← flowItems close item fuel false)

/-- Items that each begin with a dash, up to what `finish` makes of the first token that is none. -/
def dashItems (finish : Reading Unit) (ends : List Token) (item : Reading Node) :
    Nat → Reading (List Node)
  | 0 => fail
  | fuel + 1 => do
    if ← skipIf .blockEntry then
      let x ← if ← atAny ends then pure .empty else item
      return x :: (← dashItems finish ends item fuel)
    else
      finish
      return []

/-- Entries of a block mapping up to its end. -/
def blockEntries (item : Reading Node) : Nat → Reading (List (Node × Node))
  | 0 => fail
  | fuel + 1 => do
    if ← skipIf .blockEnd then return []
    let ends : List Token := [.key, .value, .blockEnd]
    if !(← skipIf .key) then fail
    let k ← if ← atAny ends then pure .empty else item
    let v ← if ← skipIf .value then
        if ← atAny ends then pure .empty else item
      else pure .empty
    return (k, v) :: (← blockEntries item fuel)

/-- A key with its value between brackets that end with `close`; without a mark for the key there is no
value. -/
def flowPair (close : Token) (item : Reading Node) : Reading (Node × Node) := do
  if ← skipIf .key then
    let k ← if ← atAny [.value, .flowEntry, close] then pure .empty else item
    let v ← if ← skipIf .value then
        if ← atAny [.flowEntry, close] then pure .empty else item
      else pure .empty
    return (k, v)
  else
    let k ← item
    return (k, .empty)

/-- An item of a sequence in brackets; a pair alone is a mapping of one entry. -/
def flowItem (item : Reading Node) : Reading Node := do
  if (← peek) == some .key then return .mapping [← flowPair .flowSequenceEnd item]
  else item

/-- A node; nodes nest at most `room` deep. `block` allows block collections and `indentless` a sequence
at the indentation of its parent. -/
def node : Nat → (block indentless : Bool) → Reading Node
  | 0, _, _ => fail
  | room + 1, block, indentless => do
    match ← peek with
    | some (.aliasOf n) =>
      skip
      match (← get).anchors.lookup n with
      | some x => return x
      | none => fail
    | _ =>
      let fuel := (← get).rest.length + 1
      let (anchor, tagged) ← properties 2 none false
      let x ← match ← peek with
        | some (.scalar s plain) => do
          skip
          pure (.scalar s plain)
        | some .flowSequenceStart => do
          skip
          pure (.sequence (← flowItems .flowSequenceEnd (flowItem (node room false false)) fuel true))
        | some .flowMappingStart => do
          skip
          pure (.mapping
            (← flowItems .flowMappingEnd (flowPair .flowMappingEnd (node room false false)) fuel true))
        | some .blockEntry => do
          if !indentless then fail
          pure (.sequence (← dashItems (pure ()) [.blockEntry, .key, .value, .blockEnd]
            (node room true false) fuel))
        | some .blockSequenceStart => do
          if !block then fail
          skip
          let finish : Reading Unit := do
            if !(← skipIf .blockEnd) then fail
          pure (.sequence (← dashItems finish [.blockEntry, .blockEnd] (node room true false) fuel))
        | some .blockMappingStart => do
          if !block then fail
          skip
          pure (.mapping (← blockEntries (node room true true) fuel))
        | _ => if anchor.isSome || tagged then pure Node.empty else fail
      match anchor with
      | none => return x
      | some n =>
        modify fun s => { s with anchors := (n, x) :: s.anchors }
        return x

/-- Directives in front of a document; the version may be given once. -/
def directives : Nat → Bool → Reading Bool
  | 0, any => return any
  | fuel + 1, any => do
    match ← peek with
    | some .versionDirective =>
      skip
      directives fuel true
    | some (.tagDirective h) =>
      skip
      modify fun s => { s with handles := h :: s.handles }
      directives fuel true
    | _ => return any

def skipAll (t : Token) : Nat → Reading Unit
  | 0 => return ()
  | fuel + 1 => do
    if ← skipIf t then skipAll t fuel

/-- Nodes nest at most this deep. -/
def greatestDepth : Nat := 128

/-- One document and nothing after it. -/
def document : Reading Node := do
  let fuel := (← get).rest.length
  let directed ← directives fuel false
  let started ← skipIf .documentStart
  if directed && !started then fail
  let ends : List Token := [.versionDirective, .documentStart, .documentEnd, .streamEnd]
  let x ← if ← atAny ends then
      if started then pure Node.empty else fail
    else node greatestDepth true false
  skipAll .documentEnd fuel
  if ← skipIf .streamEnd then return x else fail

end Reading

/-- The document of a text, if it is well formed. -/
def Node.read (text : List Char) : Option Node := do
  let tokens ← tokenize text
  (Reading.document.run { rest := tokens }).map (·.1)

end SecureLayout.Yaml
