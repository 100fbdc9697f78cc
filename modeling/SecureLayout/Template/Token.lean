import SecureLayout.Numeric.Double

/-!
Tokens of a template: stretches of text, delimiters of tags, and the words inside tags.
-/

namespace SecureLayout.Template

open Numeric

inductive Symbol where
  | plus | minus | times | slash | floor | percent | power | bang
  | dot | comma | colon | tilde | pipe | assign
  | eq | ne | gt | ge | lt | le
  | parenOpen | parenClose | bracketOpen | bracketClose | braceOpen | braceClose
  deriving DecidableEq, Repr

def Symbol.text : Symbol → String
  | plus => "+"
  | minus => "-"
  | times => "*"
  | slash => "/"
  | floor => "//"
  | percent => "%"
  | power => "**"
  | bang => "!"
  | dot => "."
  | comma => ","
  | colon => ":"
  | tilde => "~"
  | pipe => "|"
  | assign => "="
  | eq => "=="
  | ne => "!="
  | gt => ">"
  | ge => ">="
  | lt => "<"
  | le => "<="
  | parenOpen => "("
  | parenClose => ")"
  | bracketOpen => "["
  | bracketClose => "]"
  | braceOpen => "\x7b"
  | braceClose => "\x7d"

inductive Token where
  | data (s : String)
  | exprStart
  | exprEnd
  | blockStart
  | blockEnd
  | name (s : String)
  | string (s : String)
  | int (n : Nat)
  | float (x : Double)
  | symbol (s : Symbol)
  deriving DecidableEq, Repr

/-- How a token is called in complaints. -/
def Token.describe : Token → String
  | data _ => "template-data"
  | exprStart => "start of variable block"
  | exprEnd => "end of variable block"
  | blockStart => "start of block"
  | blockEnd => "end of block"
  | name _ => "identifier"
  | string _ => "string"
  | int _ => "integer"
  | float _ => "float"
  | symbol s => "`" ++ s.text ++ "`"

/-- A token with the line it begins on. -/
structure Spanned where
  token : Token
  line : Nat
  deriving DecidableEq, Repr

end SecureLayout.Template
