import SecureLayout.Json.Value
import SecureLayout.Numeric.Shortest

/-!
Compact JSON text. Characters outside ASCII stand as they are; integers are written in full.
-/

namespace SecureLayout.Json

open SecureLayout.Numeric

/-- The shorter escape where the format has one, four hexadecimal digits for the other controls. -/
def escapeChar (c : Char) : List Char :=
  match c with
  | '"' => ['\\', '"']
  | '\\' => ['\\', '\\']
  | '\n' => ['\\', 'n']
  | '\r' => ['\\', 'r']
  | '\t' => ['\\', 't']
  | '\x08' => ['\\', 'b']
  | '\x0c' => ['\\', 'f']
  | c =>
    if c.toNat < 0x20 then
      ['\\', 'u', '0', '0', Nat.digitChar (c.toNat / 16), Nat.digitChar (c.toNat % 16)]
    else [c]

/-- A JSON string with its quotes. -/
def renderText (s : List Char) : List Char :=
  '"' :: (s.flatMap escapeChar ++ ['"'])

def renderInt : Int → List Char
  | .ofNat n => Nat.toDigits 10 n
  | .negSucc n => '-' :: Nat.toDigits 10 (n + 1)

/-- A number that is not finite is written as `null`. -/
def Number.render : Number → List Char
  | int n => renderInt n
  | float x => if x.isFinite then Layout.json.render x else ['n', 'u', 'l', 'l']

namespace Value

mutual

def render : Value → List Char
  | null => ['n', 'u', 'l', 'l']
  | bool true => ['t', 'r', 'u', 'e']
  | bool false => ['f', 'a', 'l', 's', 'e']
  | number n => n.render
  | text s => renderText s.toList
  | list [] => ['[', ']']
  | list (v :: r) => '[' :: (render v ++ renderItems r)
  | object [] => ['\x7b', '\x7d']
  | object ((k, v) :: r) => '\x7b' :: (renderText k.toList ++ ':' :: (render v ++ renderMembers r))

/-- The items after the first, and the bracket that closes them. -/
def renderItems : List Value → List Char
  | [] => [']']
  | v :: r => ',' :: (render v ++ renderItems r)

/-- The members after the first, and the brace that closes them. -/
def renderMembers : List (String × Value) → List Char
  | [] => ['\x7d']
  | (k, v) :: r => ',' :: (renderText k.toList ++ ':' :: (render v ++ renderMembers r))

end

def compact (v : Value) : String :=
  String.ofList v.render

end Value

/-- The fields of a record after the first, each with its written value, and the closing brace. -/
def renderFields : List (String × List Char) → List Char
  | [] => ['\x7d']
  | (k, v) :: r => ',' :: (renderText k.toList ++ ':' :: (v ++ renderFields r))

/-- An object whose members keep the given order. -/
def renderRecord : List (String × List Char) → List Char
  | [] => ['\x7b', '\x7d']
  | (k, v) :: r => '\x7b' :: (renderText k.toList ++ ':' :: (v ++ renderFields r))

/-- A list of written values. -/
def renderList : List (List Char) → List Char
  | [] => ['[', ']']
  | v :: r => '[' :: (v ++ r.flatMap (',' :: ·) ++ [']'])

end SecureLayout.Json
