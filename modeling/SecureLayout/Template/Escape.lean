import SecureLayout.Text.Blank

/-!
Escapes in string literals of a template. Four hexadecimal digits name a UTF-16 unit, so a character
outside the basic plane takes two escapes.
-/

namespace SecureLayout.Template

def hexDigit? (c : Char) : Option Nat :=
  if c.isDigit then some (c.toNat - 48)
  else if 'a' ≤ c && c ≤ 'f' then some (c.toNat - 87)
  else if 'A' ≤ c && c ≤ 'F' then some (c.toNat - 55)
  else none

def hexDigits? (cs : List Char) : Option Nat :=
  if cs.isEmpty then none
  else cs.foldlM (fun n c => (hexDigit? c).map fun d => 16 * n + d) 0

/-- A UTF-16 unit from four characters; a plus may stand for the first digit. -/
def unit? (a b c d : Char) : Option Nat :=
  if a = '+' then hexDigits? [b, c, d] else hexDigits? [a, b, c, d]

def isSurrogate (n : Nat) : Bool :=
  0xD800 ≤ n && n < 0xE000

/-- The character of a pair of units. -/
def pairChar? (high low : Nat) : Option Char :=
  if 0xD800 ≤ high && high < 0xDC00 && 0xDC00 ≤ low && low < 0xE000 then
    some (Char.ofNat (0x10000 + (high - 0xD800) * 0x400 + (low - 0xDC00)))
  else none

def simpleEscape? : Char → Option Char
  | '"' => some '"'
  | '\\' => some '\\'
  | '/' => some '/'
  | '\'' => some '\''
  | 'b' => some '\x08'
  | 'f' => some '\x0c'
  | 'n' => some '\n'
  | 'r' => some '\r'
  | 't' => some '\t'
  | _ => none

/-- The text of a literal; `none` if an escape is bad. `high` is a unit that waits for its second. -/
def unescape? (high : Option Nat) : List Char → Option (List Char)
  | [] => if high.isNone then some [] else none
  | '\\' :: 'u' :: a :: b :: c :: d :: r => do
    let n ← unit? a b c d
    match high with
    | none =>
      if isSurrogate n then unescape? (some n) r
      else return Char.ofNat n :: (← unescape? none r)
    | some h =>
      if isSurrogate n then return (← pairChar? h n) :: (← unescape? none r) else none
  | '\\' :: e :: r =>
    if high.isSome then none
    else do return (← simpleEscape? e) :: (← unescape? none r)
  | '\\' :: [] => none
  | c :: r => if high.isSome then none else do return c :: (← unescape? none r)

/-- The text between the quotes of a literal. -/
def unescaped? (cs : List Char) : Option String :=
  (unescape? none cs).map String.ofList

theorem unescape?_plain (cs : List Char) (h : ∀ c ∈ cs, c ≠ '\\') : unescape? none cs = some cs := by
  induction cs with
  | nil => rfl
  | cons c r ih =>
    have hc : c ≠ '\\' := h c (by simp)
    have ih := ih fun x hx => h x (List.mem_cons_of_mem _ hx)
    unfold unescape?
    split <;> simp_all

end SecureLayout.Template
